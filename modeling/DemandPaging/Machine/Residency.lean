import DemandPaging.Machine.Components

/-!
Which page is in which frame.

A page is resident when a listed frame names it as its owner, the page names that frame, and the
page directory of the owner maps the page's address to it. The actions of this module change all
three together: `link` makes a page the owner of a frame, `evict` undoes it after moving the
contents out, and `removeSlot` takes a frame without owner off the list.

When the pool is empty a frame is taken from its page. The victim is chosen by the clock: starting
at the hand, a page that was accessed since the last visit loses its accessed bit and is passed
over, and the first one that was not is taken. Pinned frames and frames without owner are passed
over as well. Two rounds are enough, since the first one clears every accessed bit on its way.
-/

namespace DemandPaging.Machine

/-! ### Contents -/

/-- Fills a buffer with the first contents of a page. A loader is given a zeroed one. -/
def fillPending (source : Pending) (buffer : PageBytes) : Action (Bool × PageBytes) := do
  match source with
  | .zeros => return (true, .zeros pageSize)
  | .loader (.fill byte count succeeds) =>
      if pageSize < count then throw .outOfBounds
      return (succeeds, (Bytes.zeros pageSize).overlay 0 (Array.replicate count byte))
  | .loader (.segment slice) => fillFromSlice slice (Bytes.zeros pageSize)
  | .file slice => fillFromSlice slice buffer

/-- Brings the contents of a page into a frame. Gives what the page becomes, or nothing if its
contents could not be had. -/
def bringIn (contents : Contents) (frame : FrameNumber) : Action (Option Contents) := do
  let buffer ← frameBytes frame
  match contents with
  | .pending source =>
      let (filled, bytes) ← fillPending source buffer
      setFrameBytes frame bytes
      return if filled then some source.settled else none
  | .anonymous slot =>
      let (slot, result, bytes) ← fillAnonymous slot buffer
      setFrameBytes frame bytes
      match result with
      | .ok () => return some (.anonymous slot)
      | .error cause =>
          record (.swapInFailed cause)
          return none
  | .file slice =>
      let (filled, bytes) ← fillFromSlice slice buffer
      setFrameBytes frame bytes
      return if filled then some (.file slice) else none

def moveOut (contents : Contents) (frame : FrameNumber) (dirty : Bool) : Action Contents := do
  let buffer ← frameBytes frame
  match contents with
  | .pending _ => throw .evictingUnloadedPage
  | .anonymous slot => return .anonymous (some (← evictAnonymous slot buffer))
  | .file slice =>
      evictToSlice slice buffer dirty
      return .file slice

/-- Gives up the contents of a page for good. Changed file contents that are still in a frame are
written back first. -/
def giveUp (contents : Contents) (frame : Option FrameNumber) (dirty : Bool) :
    Action Contents := do
  let buffer ← frame.mapM frameBytes
  match contents with
  | .pending source => return .pending source
  | .anonymous slot => return .anonymous (← discardAnonymous slot)
  | .file slice =>
      if let some buffer := buffer then evictToSlice slice buffer dirty
      return .file slice

/-! ### Frames and their owners -/

def unmapOwner (owner : Owner) : Action Bool := do
  let dirty ← testFlag owner.directory owner.va .dirty
  let _ ← unmapPage owner.directory owner.va
  return dirty

/-- Takes the page out of the frame at a position, which is left without owner. -/
def evict (index : Nat) : Action Unit := do
  let slot ← getSlot index
  let some owner := slot.owner | return
  setOwner index none
  match (← get).pages.get? owner.page with
  | none =>
      record (.orphanEvicted slot.frame owner.va)
      let _ ← unmapPage owner.directory owner.va
  | some page =>
      let dirty ← unmapOwner owner
      let contents ← moveOut page.contents slot.frame dirty
      updatePage owner.page fun page => { page with contents, frame := none }
      record (.evicted owner.va slot.frame dirty)

/-- Makes a page the owner of the frame at a position and maps it. -/
def link (index : Nat) (key : Key Page) (directory : Key Directory) : Action Unit := do
  let frame := (← getSlot index).frame
  let page ← getPage key
  setOwner index (some ⟨key, page.va, directory⟩)
  updatePage key fun page => { page with frame := some frame }
  mapPage directory page.va (← frame.start) (.forUser page.writable)

/-- Where the hand of the clock stands once a position was removed from the list. -/
def handAfterRemoval (hand index remaining : Nat) : Nat :=
  let hand := if index < hand then hand - 1 else hand
  if remaining ≤ hand then 0 else hand

/-- Takes the frame at a position off the list and returns it to the pool. -/
def removeSlot (index : Nat) : Action Unit := do
  let slot ← getSlot index
  let machine ← get
  let listed := machine.listed.eraseIdx index
  setListed listed
  setHand (handAfterRemoval machine.hand index listed.length)
  releaseFrame slot.frame

/-! ### The clock -/

/-- Sweeps over a number of positions, starting at the hand, until a victim is found. -/
def sweep : (steps : Nat) → Action (Option Nat)
  | 0 => return none
  | steps + 1 => do
      let machine ← get
      let index := machine.hand % machine.listed.length
      setHand ((index + 1) % machine.listed.length)
      let slot ← getSlot index
      let some owner := slot.owner | sweep steps
      if (← machine.pool.frame slot.frame).flags.pinned then return ← sweep steps
      if ← testFlag owner.directory owner.va .accessed then
        setFlag owner.directory owner.va .accessed false
        return ← sweep steps
      return some index

def selectVictim : Action (Option Nat) := do sweep ((← get).listed.length * 2)

/-- Gives the position of a listed frame without owner: a new one from the pool, or one that is
taken from its page. -/
def acquire : Action (Option Nat) := do
  match ← allocateFrame with
  | some frame =>
      let listed := (← get).listed
      setListed (listed ++ [⟨frame, none⟩])
      return some listed.length
  | none =>
      let some victim ← selectVictim | return none
      evict victim
      return some victim

/-! ### Pages -/

/-- Brings a page into a frame and maps it. A page that is resident stays as it is. If its contents
cannot be had, the frame goes back to the pool. -/
def claim (key : Key Page) (directory : Key Directory) : ExceptT VmError Action Unit := do
  let page ← getPage key
  if page.isResident then return
  let some index ← acquire | throw .outOfMemory
  let frame := (← getSlot index).frame
  match ← bringIn page.contents frame with
  | none =>
      removeSlot index
      throw .loadFailed
  | some contents =>
      updatePage key fun page => { page with contents }
      link index key directory
      record (.claimed frame page.va)

/-- Evicts a page and returns its frame to the pool. Answers whether the page was resident. -/
def pageOut (key : Key Page) : Action Bool := do
  let page ← getPage key
  let machine ← get
  let some index := page.frame.bind machine.position? | return false
  evict index
  removeSlot index
  return true

/-- Ends the life of a page: its contents, its mapping and its frame are given up. -/
def release (key : Key Page) : Action Unit := do
  let page ← getPage key
  updatePage key fun page => { page with frame := none }
  let machine ← get
  let index := page.frame.bind machine.position?
  let owner := index.bind fun index => machine.listed[index]?.bind (·.owner)
  if let some index := index then setOwner index none
  let dirty ← match owner with
    | some owner => unmapOwner owner
    | none => pure false
  let contents ← giveUp page.contents page.frame dirty
  updatePage key fun page => { page with contents }
  if let some index := index then removeSlot index

/-! ### Copies -/

inductive CopySource where
  | frame (frame : FrameNumber)
  | slot (slot : SwapSlot)
deriving DecidableEq

/-- The contents of a copy before any bytes are copied, and the bytes that remain to be copied. A
copy of a file page reopens the file. -/
def copyContents (page : Page) : ExceptT VmError Action (Contents × Option CopySource) := do
  match page.contents with
  | .pending source =>
      let some source ← duplicatePending source | throw .outOfFiles
      return (.pending source, none)
  | .anonymous slot =>
      return (.anonymous none, (page.frame.map CopySource.frame).or (slot.map CopySource.slot))
  | .file slice =>
      let some slice ← duplicateSlice slice | throw .outOfFiles
      return (.file slice, page.frame.map CopySource.frame)

/-- Acquires a frame while the source of a copy is pinned, so that it is not its own victim. -/
def acquireBeside (source : CopySource) : Action (Option Nat) := do
  match source with
  | .frame frame =>
      pinFrame frame true
      let acquired ← acquire
      pinFrame frame false
      return acquired
  | .slot _ => acquire

def copyBytes (source : CopySource) (target : FrameNumber) : Action Bool := do
  match source with
  | .frame frame =>
      copyFrame frame target
      return true
  | .slot slot =>
      let (result, bytes) ← readFromSwap slot (← frameBytes target)
      setFrameBytes target bytes
      return result.isOk

/-- Makes a copy of a page for another directory. The page itself stays where it is, in its frame,
in its slot or pending; what the copy needs is copied or opened anew, and the copy starts clean. -/
def duplicate (key : Key Page) (directory : Key Directory) :
    ExceptT VmError Action (Key Page) := do
  let page ← getPage key
  let (contents, source) ← copyContents page
  let copy ← Page.create page.va page.writable contents
  match source with
  | none => addPage copy
  | some source =>
      let some index ← acquireBeside source | throw .outOfMemory
      let frame := (← getSlot index).frame
      unless ← copyBytes source frame do
        removeSlot index
        throw .loadFailed
      let copyKey ← addPage copy
      link index copyKey directory
      return copyKey

/-! ### Access through a directory -/

def loadBytes (directory : Key Directory) (va : VirtualAddress) (length : Nat) :
    ExceptT AccessViolation Action (Array UInt8) := do
  readMemory (← accessPage directory va false) length

def storeBytes (directory : Key Directory) (va : VirtualAddress) (data : Array UInt8) :
    ExceptT AccessViolation Action Unit := do
  writeMemory (← accessPage directory va true) data

end DemandPaging.Machine
