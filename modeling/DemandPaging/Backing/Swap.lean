import DemandPaging.Backing.Bitmap
import DemandPaging.Backing.Disk

/-!
Swap: the device divided into page-sized slots.

A slot is occupied from the moment a page was written to it in full until it is freed, and the page
is read back only from an occupied slot. Pages always go to the lowest free slot. A write that the
device refuses leaves the slot free, and a read that it refuses leaves it occupied.
-/

namespace DemandPaging

structure SwapSlot where
  index : Nat
deriving DecidableEq

namespace SwapSlot

def firstSector (slot : SwapSlot) : Nat := slot.index * sectorsPerPage

def text (slot : SwapSlot) : String := toString slot.index

def describe (slot : SwapSlot) : String := "SwapSlot(" ++ slot.text ++ ")"

end SwapSlot

/-- The swap device and which of its slots are occupied. -/
structure Swap where
  disk : Disk
  occupied : Bitmap

namespace Swap

/-- Swap over a device; sectors at the end that do not fill a slot are left out. -/
def ofDisk (disk : Disk) : Swap :=
  ⟨disk, .empty (disk.reported / sectorsPerPage)⟩

def diskOfSlots (slots : Nat) : Except Panic Disk := do
  Disk.create (← Word.mul slots sectorsPerPage)

def slotCount (swap : Swap) : Nat := swap.occupied.size

def isOccupied (swap : Swap) (slot : SwapSlot) : Bool := swap.occupied.get slot.index

def freeSlots (swap : Swap) : Nat := swap.slotCount - swap.occupied.count

def lowestFree? (swap : Swap) : Option SwapSlot := swap.occupied.lowestClear?.map SwapSlot.mk

def mark (swap : Swap) (slot : SwapSlot) (on : Bool) : Swap :=
  { swap with
    occupied :=
      if h : slot.index < swap.occupied.size then swap.occupied.set slot.index h on
      else swap.occupied }

/-- Writes a page to the lowest free slot, which is free again if the device refuses. -/
def store (swap : Swap) (page : PageBytes) : Except SwapError SwapSlot × Swap :=
  match swap.lowestFree? with
  | none => (.error .full, swap)
  | some slot =>
      let taken := swap.mark slot true
      match taken.disk.writePage slot.firstSector page with
      | (.ok (), disk) => (.ok slot, { taken with disk })
      | (.error cause, disk) => (.error (.device cause), { taken with disk }.mark slot false)

/-- Reads the page in a slot over `page`, which stays in the slot. -/
def read (swap : Swap) (slot : SwapSlot) (page : PageBytes) :
    Except Panic (Except SwapError Unit × PageBytes × Swap) := do
  unless swap.isOccupied slot do throw .readingFreeSlot
  let (result, page, disk) := swap.disk.readPage slot.firstSector page
  return (result.mapError .device, page, { swap with disk })

def free (swap : Swap) (slot : SwapSlot) : Except Panic Swap := do
  unless swap.isOccupied slot do throw .freeingFreeSlot
  return swap.mark slot false

/-- Reads the page in a slot over `page` and frees the slot, unless the device refuses. -/
def load (swap : Swap) (slot : SwapSlot) (page : PageBytes) :
    Except Panic (Except SwapError Unit × PageBytes × Swap) := do
  let (result, page, swap) ← swap.read slot page
  match result with
  | .ok () => return (.ok (), page, ← swap.free slot)
  | .error cause => return (.error cause, page, swap)

end Swap

/-- A buffer as a whole page, which is all that moves to and from swap. -/
def Bytes.asPage {n : Nat} (buffer : Bytes n) : Except Panic PageBytes :=
  if h : n = pageSize then .ok (buffer.cast h) else .error .partialSwapTransfer

end DemandPaging
