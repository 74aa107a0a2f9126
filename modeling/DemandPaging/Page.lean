import DemandPaging.Address
import DemandPaging.Backing.Slice
import DemandPaging.Backing.Swap

/-!
Page descriptors.

A page is pending until it is first brought in: it has a source for its contents and nothing else.
From then on it is either anonymous, and its contents live in a frame or in a swap slot, or it is a
window of a file. A page that is resident names its frame; the frame, in turn, lists the page as its
owner, but only by key. A page is there as long as someone holds it.
-/

namespace DemandPaging

/-- Where the first contents of an anonymous page come from, if it does not start as zeros: a
segment of an executable, or an initializer that fills a number of bytes and may then fail. -/
inductive Loader where
  | segment (slice : FileSlice)
  | fill (byte : UInt8) (count : Nat) (succeeds : Bool)
deriving DecidableEq

/-- The source of a page that was not brought in yet. -/
inductive Pending where
  | zeros
  | loader (loader : Loader)
  | file (slice : FileSlice)
deriving DecidableEq

/-- What stands behind a page. The slot of an anonymous page is where its contents are while they
are swapped out. -/
inductive Contents where
  | pending (source : Pending)
  | anonymous (slot : Option SwapSlot)
  | file (slice : FileSlice)
deriving DecidableEq

inductive PageKind where
  | uninit
  | anonymous
  | fileBacked
deriving DecidableEq

def PageKind.name : PageKind → String
  | uninit => "Uninit"
  | anonymous => "Anonymous"
  | fileBacked => "FileBacked"

namespace Loader

def slice? : Loader → Option FileSlice
  | segment slice => some slice
  | fill .. => none

end Loader

namespace Pending

def slice? : Pending → Option FileSlice
  | zeros => none
  | loader source => source.slice?
  | file slice => some slice

/-- What the page becomes once it was brought in. -/
def settled : Pending → Contents
  | zeros => .anonymous none
  | loader _ => .anonymous none
  | file slice => .file slice

end Pending

namespace Contents

def kind : Contents → PageKind
  | pending _ => .uninit
  | anonymous _ => .anonymous
  | file _ => .fileBacked

def slot? : Contents → Option SwapSlot
  | anonymous slot => slot
  | _ => none

def describeAnonymous (slot : Option SwapSlot) : String :=
  let slot := match slot with
    | some slot => "Some(" ++ slot.describe ++ ")"
    | none => "None"
  "AnonPage \x7b slot: " ++ slot ++ " \x7d"

def describeFile (slice : FileSlice) : String :=
  "FilePage \x7b slice: " ++ slice.describe ++ " \x7d"

def slice? : Contents → Option FileSlice
  | pending source => source.slice?
  | anonymous _ => none
  | file slice => some slice

end Contents

structure Page where
  va : VirtualAddress
  writable : Bool
  contents : Contents
  /-- The frame that holds the page while it is resident. -/
  frame : Option FrameNumber
  /-- How many page tables and clients hold the page. -/
  holders : Nat
  aligned : va.isPageAligned = true

namespace Page

/-- A page with one holder that is not resident. -/
def create (va : VirtualAddress) (writable : Bool) (contents : Contents) : Except Panic Page :=
  if aligned : va.isPageAligned then
    .ok { va, writable, contents, frame := none, holders := 1, aligned }
  else .error .pageAddressMisaligned

def isResident (page : Page) : Bool := page.frame.isSome

def handle? (page : Page) : Option Handle := page.contents.slice?.map FileSlice.handle

def describe (page : Page) : String :=
  let frame := match page.frame with
    | some frame => "Some(" ++ frame.describe ++ ")"
    | none => "None"
  "Page \x7b va: " ++ page.va.describe ++ ", writable: " ++ toString page.writable ++
    ", kind: " ++ page.contents.kind.name ++ ", frame: " ++ frame ++ " \x7d"

end Page

end DemandPaging
