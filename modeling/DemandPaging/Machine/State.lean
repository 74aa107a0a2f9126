import DemandPaging.Event
import DemandPaging.Memory.Pool
import DemandPaging.Page
import DemandPaging.Quoted
import DemandPaging.PageTable.Directory
import Std.Data.ExtTreeMap

/-!
The state of the whole system, and the actions that read and change it.

The state holds each thing once. Pages, page directories, address spaces and files live in arenas
and refer to one another by key; the frame pool and the swap area are shared by all. The frames in
use are listed in the order in which they were taken, each with the page that owns it, and the hand
of the eviction clock is a position in that list.

What can be counted is not stored. In particular a file handle is open exactly as long as a page, a
mapped region or a client holds it, so `openHandles` is computed from the holders.

An action may end in a panic. The state at that point is kept, because the events that led up to it
are part of it.
-/

namespace DemandPaging

/-- The page that lives in a frame: a reference that may outlive the page, and where the frame is
mapped. -/
structure Owner where
  page : Key Page
  va : VirtualAddress
  directory : Key Directory
deriving DecidableEq

/-- A frame in use. It has no owner while it changes hands. -/
structure FrameSlot where
  frame : FrameNumber
  owner : Option Owner
deriving DecidableEq

abbrev PageMap := Std.ExtTreeMap PageNumber (Key Page)

/-- A run of file pages that was mapped together and will be unmapped together. -/
structure Region where
  start : VirtualAddress
  pages : Nat
  handle : Handle
  offset : Nat
  writable : Bool
deriving DecidableEq

def Region.describe (region : Region) : String :=
  "MappedRegion \x7b start: " ++ region.start.describe ++ ", pages: " ++ toString region.pages ++
    ", offset: " ++ toString region.offset ++ ", writable: " ++ toString region.writable ++
    ", .. \x7d"

abbrev RegionMap := Std.ExtTreeMap VirtualAddress Region

structure AddressSpace where
  name : String
  directory : Key Directory
  pages : PageMap
  regions : RegionMap
  /-- The user's stack pointer at the last trap. -/
  stackPointer : Nat
  /-- The user's stack pointer at the last entry to the kernel. -/
  savedStackPointer : Nat

def AddressSpace.describe (space : AddressSpace) : String :=
  "AddressSpace \x7b name: " ++ Quoted.encode space.name ++ ", pages: " ++
    toString space.pages.size ++ ", mappings: " ++ toString space.regions.size ++ ", .. \x7d"

structure Machine where
  pool : Pool
  swap : Swap
  /-- The frames in use, in the order in which they were taken. -/
  listed : List FrameSlot
  /-- The position in `listed` at which the next sweep of the clock starts. -/
  hand : Nat
  pages : Arena Page
  directories : Arena Directory
  spaces : Arena AddressSpace
  files : Arena File
  /-- The handles held by clients rather than by pages or regions. -/
  clients : List Handle
  events : Array Event

/-- A step of the system, which may end in a panic. -/
abbrev Action := EStateM Panic Machine

namespace Machine

def ofExcept {α : Type} : Except Panic α → Action α
  | .ok value => pure value
  | .error panic => throw panic

instance : MonadLift (Except Panic) Action := ⟨ofExcept⟩

/-- The system before anything was installed: no frames, no swap, no files. -/
def blank : Machine :=
  { pool := .ofCapacity 0
    swap := .ofDisk .absent
    listed := []
    hand := 0
    pages := .empty
    directories := .empty
    spaces := .empty
    files := .empty
    clients := []
    events := #[] }

/-! ### What can be counted -/

def residentFrames (machine : Machine) : Nat := machine.listed.countP (·.owner.isSome)

def freeFrames (machine : Machine) : Nat := machine.pool.freeCount

def freeSwapSlots (machine : Machine) : Nat := machine.swap.freeSlots

def position? (machine : Machine) (frame : FrameNumber) : Option Nat :=
  machine.listed.findIdx? (·.frame == frame)

/-- Every mention of a handle. -/
def heldHandles (machine : Machine) : List Handle :=
  machine.clients ++ machine.pages.values.filterMap Page.handle? ++
    machine.spaces.values.flatMap fun space => space.regions.toList.map (·.2.handle)

def openHandles (machine : Machine) (file : Key File) : Nat :=
  (machine.heldHandles.filter (·.file == file)).eraseDups.length

/-- Whether one more handle of a file may be open than are open now. -/
def canReopen (machine : Machine) (key : Key File) (file : File) : Bool :=
  file.handleLimit.all fun limit => machine.openHandles key < limit

/-! ### Reading -/

def getPage (key : Key Page) : Action Page := do (← get).pages.get key

def getDirectory (key : Key Directory) : Action Directory := do (← get).directories.get key

def getSpace (key : Key AddressSpace) : Action AddressSpace := do (← get).spaces.get key

def getFile (key : Key File) : Action File := do (← get).files.get key

def getSlot (index : Nat) : Action FrameSlot := do
  match (← get).listed[index]? with
  | some slot => return slot
  | none => throw .outOfBounds

/-! ### Changing -/

def record (event : Event) : Action Unit :=
  modify fun machine => { machine with events := machine.events.push event }

def setPool (pool : Pool) : Action Unit := modify fun machine => { machine with pool }

def setSwap (swap : Swap) : Action Unit := modify fun machine => { machine with swap }

def setHand (hand : Nat) : Action Unit := modify fun machine => { machine with hand }

def setListed (listed : List FrameSlot) : Action Unit :=
  modify fun machine => { machine with listed }

def setOwner (index : Nat) (owner : Option Owner) : Action Unit :=
  modify fun machine =>
    { machine with listed := machine.listed.modify index fun slot => { slot with owner } }

def updatePage (key : Key Page) (change : Page → Page) : Action Unit :=
  modify fun machine => { machine with pages := machine.pages.modify key change }

def updateDirectory (key : Key Directory) (change : Directory → Directory) : Action Unit :=
  modify fun machine => { machine with directories := machine.directories.modify key change }

def updateSpace (key : Key AddressSpace) (change : AddressSpace → AddressSpace) : Action Unit :=
  modify fun machine => { machine with spaces := machine.spaces.modify key change }

def updateFile (key : Key File) (change : File → File) : Action Unit :=
  modify fun machine => { machine with files := machine.files.modify key change }

def addPage (page : Page) : Action (Key Page) :=
  modifyGet fun machine =>
    (machine.pages.nextKey, { machine with pages := machine.pages.add page })

def addDirectory : Action (Key Directory) :=
  modifyGet fun machine =>
    (machine.directories.nextKey, { machine with directories := machine.directories.add .empty })

def addSpace (space : AddressSpace) : Action (Key AddressSpace) :=
  modifyGet fun machine =>
    (machine.spaces.nextKey, { machine with spaces := machine.spaces.add space })

def eraseSpace (key : Key AddressSpace) : Action Unit :=
  modify fun machine => { machine with spaces := machine.spaces.erase key }

/-- Adds a file, whose first handle goes to the clients. -/
def addFile (file : File) : Action Handle :=
  modifyGet fun machine =>
    let handle : Handle := ⟨machine.files.nextKey, 0⟩
    (handle, { machine with
      files := machine.files.add file
      clients := handle :: machine.clients })

def holdHandle (handle : Handle) : Action Unit :=
  modify fun machine => { machine with clients := handle :: machine.clients }

def dropHandle (handle : Handle) : Action Unit :=
  modify fun machine => { machine with clients := machine.clients.erase handle }

def holdPage (key : Key Page) : Action Unit :=
  updatePage key fun page => { page with holders := page.holders + 1 }

/-- Takes a holder from a page. With the last one the page goes. -/
def dropPage (key : Key Page) : Action Unit := do
  let page ← getPage key
  if page.holders ≤ 1 then
    modify fun machine => { machine with pages := machine.pages.erase key }
  else
    updatePage key fun page => { page with holders := page.holders - 1 }

end Machine

end DemandPaging
