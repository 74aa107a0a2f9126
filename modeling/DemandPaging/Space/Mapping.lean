import DemandPaging.Space.Pages

/-!
How an address space gets its pages: segments of an executable, the first page of the stack, and
mapped files.

All of them only register pages; nothing is read before the first touch, apart from the first stack
page, which is brought in at once. A request is checked in full before anything is changed, so one
that is refused leaves the address space as it was.
-/

namespace DemandPaging.Space

open Machine

/-- The part of `total` bytes that falls into the page `index` of a run. -/
def bytesInPage (total index : Nat) : Nat := min (total - index * pageSize) pageSize

/-- The page `index` of a segment. Pages past the bytes that come from the file start as zeros. -/
def segmentPage (handle : Option Handle) (offset readBytes : Nat) (start : VirtualAddress)
    (writable : Bool) (index : Nat) : Except Panic Page := do
  let distance ← Word.mul index pageSize
  let va ← start.add distance
  let fromFile := bytesInPage readBytes index
  match handle with
  | some handle =>
      if 0 < fromFile then
        let slice ← FileSlice.create handle (← Word.add offset distance) fromFile
        Page.create va writable (.pending (.loader (.segment slice)))
      else Page.create va writable (.pending .zeros)
  | none => Page.create va writable (.pending .zeros)

def segmentPages (handle : Option Handle) (offset readBytes : Nat) (start : VirtualAddress)
    (writable : Bool) (count : Nat) : Except Panic (List Page) :=
  (List.range count).mapM (segmentPage handle offset readBytes start writable)

/-- Registers a segment of an executable: `readBytes` bytes of a file, then `zeroBytes` zeros. -/
def loadSegment (space : Id) (file : Handle) (offset : Nat) (start : VirtualAddress)
    (readBytes zeroBytes : Nat) (writable : Bool) : ExceptT VmError Action Unit := do
  unless start.isPageAligned && offset % pageSize == 0 do throw .misaligned
  let some total := Word.add? readBytes zeroBytes | throw .invalidSegment
  if total = 0 ∨ total % pageSize ≠ 0 then throw .invalidSegment
  let count := total / pageSize
  requireFreeRange space start count
  if (Word.add? offset total).isNone then throw .invalidOffset
  let handle ←
    if 0 < readBytes then do
      let some handle ← reopen file.file | throw .outOfFiles
      pure (some handle)
    else pure none
  insertRun space [] (← segmentPages handle offset readBytes start writable count)
  record (.segmentMapped (← getSpace space).name start count readBytes offset)

/-- Creates the page below the top of the stack and points the stack pointer at its end. -/
def setUpStack (space : Id) : ExceptT VmError Action Unit := do
  let va ← Address.ofNat .virtual (userStack - pageSize)
  let key ← insertPage space (← Page.create va true (.pending .zeros))
  try
    claim key (← getSpace space).directory
  catch cause =>
    let _ ← removePage space va.number
    throw cause
  updateSpace space fun space => { space with stackPointer := userStack }

/-- The page `index` of a mapped file, of which `mapped` bytes are in the mapping. -/
def filePage (handle : Handle) (offset mapped : Nat) (start : VirtualAddress) (writable : Bool)
    (index : Nat) : Except Panic Page := do
  let distance ← Word.mul index pageSize
  let slice ← FileSlice.create handle (← Word.add offset distance) (bytesInPage mapped index)
  Page.create (← start.add distance) writable (.pending (.file slice))

def filePages (handle : Handle) (offset mapped : Nat) (start : VirtualAddress) (writable : Bool)
    (count : Nat) : Except Panic (List Page) :=
  (List.range count).mapM (filePage handle offset mapped start writable)

/-- Maps `length` bytes of a file, from `offset` on, at an address. -/
def mapFile (space : Id) (start : VirtualAddress) (length : Nat) (writable : Bool) (file : Handle)
    (offset : Nat) : ExceptT VmError Action VirtualAddress := do
  unless offset % pageSize = 0 do throw .misaligned
  if length = 0 then throw .zeroLength
  if start.isNull then throw .invalidAddress
  unless start.isPageAligned do throw .misaligned
  let count := (length + (pageSize - 1)) / pageSize
  requireFreeRange space start count
  if ((Word.mul? count pageSize).bind (Word.add? offset)).isNone then throw .invalidOffset
  let fileLength := (← getFile file.file).length
  let handle ← reopen file.file
  if fileLength = 0 then throw .emptyFile
  let some handle := handle | throw .outOfFiles
  let mapped := min (fileLength - offset) length
  insertRun space [] (← filePages handle offset mapped start writable count)
  updateSpace space fun space =>
    { space with regions := space.regions.insert start ⟨start, count, handle, offset, writable⟩ }
  record (.fileMapped (← getSpace space).name count start offset writable)
  return start

/-- A descriptor, unless it is the standard input or output, which cannot be mapped. -/
def mappableDescriptor? (descriptor : Int) : Option Int :=
  if descriptor = 0 ∨ descriptor = 1 then none else some descriptor

def mapDescriptor (space : Id) (start : VirtualAddress) (length : Nat) (writable : Bool)
    (descriptor : Int) (offset : Nat) (lookup : Int → Option Handle) :
    ExceptT VmError Action VirtualAddress := do
  let some file := (mappableDescriptor? descriptor).bind lookup | throw .badDescriptor
  mapFile space start length writable file offset

def regionPage (region : Region) (index : Nat) : Except Panic PageNumber := do
  return (← region.start.add (← Word.mul index pageSize)).number

def regionPages (region : Region) : Except Panic (List PageNumber) :=
  (List.range region.pages).mapM (regionPage region)

/-- Removes the mapping that starts at an address; changed pages are written back. Without such a
mapping nothing happens. -/
def unmapFile (space : Id) (start : VirtualAddress) : Action Unit := do
  let name := (← getSpace space).name
  match (← getSpace space).regions[start]? with
  | none => record (.nothingUnmapped name start)
  | some region =>
      removePages space (← regionPages region)
      updateSpace space fun space => { space with regions := space.regions.erase start }
      record (.fileUnmapped name region.pages region.start)

end DemandPaging.Space
