import DemandPaging.Machine.Residency

/-!
The audit of who owns which frame.

The frame list, the pool, the pages and the page directories each say something about residency. The
audit goes through the frame list and ends in a panic at the first entry on which they disagree; if
it returns, every listed frame is allocated, listed once, and owned by a page that names it and is
mapped to it.
-/

namespace DemandPaging.Machine

def isOwner (machine : Machine) (frame : FrameNumber) (key : Key Page) : Bool :=
  match machine.position? frame with
  | some index => (machine.listed[index]?.bind (·.owner)).any (·.page == key)
  | none => false

def auditSlot (seen : List FrameNumber) (slot : FrameSlot) : Action Unit := do
  let number := slot.frame.toNat
  if seen.contains slot.frame then throw (.frameListedTwice number)
  let machine ← get
  unless (← machine.pool.frame slot.frame).flags.allocated do throw (.frameListedButFree number)
  let some owner := slot.owner | throw (.frameWithoutOwner number)
  let some page := machine.pages.get? owner.page | throw (.frameOwnedByDroppedPage number)
  unless page.frame = some slot.frame do throw (.pageNotPointingBack owner.va.text number)
  let mapped := ((← getDirectory owner.directory).locate owner.va).map (·.1)
  unless mapped = some (← slot.frame.start) do throw (.pageNotMappedToFrame owner.va.text number)

def auditSlots (seen : List FrameNumber) : List FrameSlot → Action Unit
  | [] => return ()
  | slot :: rest => do
      auditSlot seen slot
      auditSlots (slot.frame :: seen) rest

def auditFrames : Action Unit := do auditSlots [] (← get).listed

def auditPage (directory : Key Directory) (number : PageNumber) (key : Key Page) : Action Unit := do
  let va ← number.start
  let page ← getPage key
  let machine ← get
  if let some frame := page.frame then
    unless machine.isOwner frame key do throw (.pageNotOwner va.text frame.toNat)
  unless (← getDirectory directory).isMapped va = page.isResident do
    throw (.residencyDisagrees va.text)

def auditPages (directory : Key Directory) : List (PageNumber × Key Page) → Action Unit
  | [] => return ()
  | (number, key) :: rest => do
      auditPage directory number key
      auditPages directory rest

def auditSpace (key : Key AddressSpace) : Action Unit := do
  let space ← getSpace key
  auditFrames
  auditPages space.directory space.pages.toList

end DemandPaging.Machine
