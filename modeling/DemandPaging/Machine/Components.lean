import DemandPaging.Machine.State

/-!
The parts of the system as actions: frames, swap, files and page directories.

Each action changes one part and reports what it did. Nothing here knows which page is in which
frame.
-/

namespace DemandPaging.Machine

/-! ### Setting up -/

def attachDisk (disk : Disk) : Action Unit := do
  let swap := Swap.ofDisk disk
  record (.swapAttached swap.slotCount)
  setSwap swap

/-- Puts the frame pool and the swap area into service. -/
def openForService : Action Unit := do
  let machine ← get
  record (.framesTaken machine.pool.capacity machine.swap.slotCount)

/-! ### Frames -/

def allocateFrame : Action (Option FrameNumber) := do
  match (← get).pool.allocate with
  | none => return none
  | some (frame, pool) =>
      setPool pool
      record (.frameAllocated frame)
      return some frame

def releaseFrame (frame : FrameNumber) : Action Unit := do
  let pool ← (← get).pool.release frame
  setPool pool
  record (.frameFreed frame)

def pinFrame (frame : FrameNumber) (on : Bool) : Action Unit := do
  let pool ← (← get).pool.setPinned frame on
  setPool pool

def frameBytes (frame : FrameNumber) : Action PageBytes := do (← get).pool.bytes frame

def setFrameBytes (frame : FrameNumber) (bytes : PageBytes) : Action Unit := do
  let pool ← (← get).pool.setBytes frame bytes
  setPool pool

def copyFrame (source target : FrameNumber) : Action Unit := do
  let pool ← (← get).pool.copy source target
  setPool pool

def readMemory (pa : PhysicalAddress) (length : Nat) : Action (Array UInt8) := do
  (← get).pool.read pa length

def writeMemory (pa : PhysicalAddress) (data : Array UInt8) : Action Unit := do
  let pool ← (← get).pool.write pa data
  setPool pool

/-! ### Swap -/

def storeInSwap {n : Nat} (buffer : Bytes n) : Action (Except SwapError SwapSlot) := do
  let page ← buffer.asPage
  let (result, swap) := (← get).swap.store page
  setSwap swap
  if let .ok slot := result then record (.slotWritten slot)
  return result

def readFromSwap (slot : SwapSlot) {n : Nat} (buffer : Bytes n) :
    Action (Except SwapError Unit × PageBytes) := do
  let page ← buffer.asPage
  let (result, page, swap) ← (← get).swap.read slot page
  setSwap swap
  return (result, page)

def loadFromSwap (slot : SwapSlot) {n : Nat} (buffer : Bytes n) :
    Action (Except SwapError Unit × PageBytes) := do
  let page ← buffer.asPage
  let (result, page, swap) ← (← get).swap.load slot page
  setSwap swap
  if let .ok () := result then record (.slotReadBack slot)
  return (result, page)

def freeSwapSlot (slot : SwapSlot) : Action Unit := do
  let swap ← (← get).swap.free slot
  setSwap swap

/-! ### Anonymous contents -/

/-- Moves the contents of an anonymous page into a buffer: from its slot, which is freed, or as
zeros if it has none. Gives the slot that the page still has, the result and the buffer. -/
def fillAnonymous (slot : Option SwapSlot) {n : Nat} (buffer : Bytes n) :
    Action (Option SwapSlot × Except SwapError Unit × Bytes n) := do
  match slot with
  | none => return (none, .ok (), .zeros n)
  | some slot =>
      if h : n = pageSize then
        match ← loadFromSwap slot (buffer.cast h) with
        | (.ok (), page) => return (none, .ok (), page.cast h.symm)
        | (.error cause, page) => return (some slot, .error cause, page.cast h.symm)
      else throw .partialSwapTransfer

/-- Moves the contents of an anonymous page to swap. There is nowhere else for them to go, so the
run ends if swap does not take them. -/
def evictAnonymous (slot : Option SwapSlot) {n : Nat} (buffer : Bytes n) : Action SwapSlot := do
  if slot.isSome then throw .residentPageHoldsSlot
  match ← storeInSwap buffer with
  | .ok slot => return slot
  | .error cause => throw (.anonymousPageStuck cause)

/-- Gives up the swapped-out contents of an anonymous page, if there are any. The page has no slot
afterwards. -/
def discardAnonymous (slot : Option SwapSlot) : Action (Option SwapSlot) := do
  if let some slot := slot then freeSwapSlot slot
  return none

/-! ### Files -/

def reopen (file : Key File) : Action (Option Handle) := do
  let current ← getFile file
  unless (← get).canReopen file current do return none
  let (serial, reopened) := current.issue
  updateFile file fun _ => reopened
  return some ⟨file, serial⟩

def writeFile (file : Key File) (offset : Nat) (data : Array UInt8) : Action Nat := do
  let (written, changed) := (← getFile file).write offset data
  updateFile file fun _ => changed
  return written

def fillFromSlice (slice : FileSlice) {n : Nat} (buffer : Bytes n) : Action (Bool × Bytes n) := do
  slice.readInto (← getFile slice.handle.file) buffer

def writeSliceBack (slice : FileSlice) {n : Nat} (buffer : Bytes n) : Action Unit := do
  let (written, changed) ← slice.writeBack (← getFile slice.handle.file) buffer
  updateFile slice.handle.file fun _ => changed
  if written ≠ slice.readBytes then
    record (.shortWriteBack slice.offset written slice.readBytes)

/-- Gives up a buffer that holds a file page: it is written back if it was changed. -/
def evictToSlice (slice : FileSlice) {n : Nat} (buffer : Bytes n) (dirty : Bool) : Action Unit := do
  if dirty then writeSliceBack slice buffer

/-- The same slice over a handle of its own. -/
def duplicateSlice (slice : FileSlice) : Action (Option FileSlice) := do
  return (← reopen slice.handle.file).map fun handle => { slice with handle }

def duplicatePending : Pending → Action (Option Pending)
  | .zeros => return some .zeros
  | .loader (.fill byte count succeeds) => return some (.loader (.fill byte count succeeds))
  | .loader (.segment slice) => return (← duplicateSlice slice).map fun s => .loader (.segment s)
  | .file slice => return (← duplicateSlice slice).map .file

/-! ### Page directories -/

def mapPage (directory : Key Directory) (va : VirtualAddress) (pa : PhysicalAddress)
    (flags : PageFlags) : Action Unit := do
  let changed ← (← getDirectory directory).map va pa flags
  updateDirectory directory fun _ => changed

def unmapPage (directory : Key Directory) (va : VirtualAddress) :
    Action (Option PhysicalAddress) := do
  let (pa, changed) := (← getDirectory directory).unmap va
  updateDirectory directory fun _ => changed
  return pa

def testFlag (directory : Key Directory) (va : VirtualAddress) (flag : Flag) : Action Bool := do
  return (← getDirectory directory).test va flag

def setFlag (directory : Key Directory) (va : VirtualAddress) (flag : Flag) (on : Bool) :
    Action Unit := do
  let changed := (← getDirectory directory).setFlag va flag on
  updateDirectory directory fun _ => changed

def accessPage (directory : Key Directory) (va : VirtualAddress) (write : Bool) :
    ExceptT AccessViolation Action PhysicalAddress := do
  match (← getDirectory directory).access va write with
  | .error violation => throw violation
  | .ok (pa, changed) =>
      updateDirectory directory fun _ => changed
      return pa

end DemandPaging.Machine
