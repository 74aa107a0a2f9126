import DemandPaging.Address
import DemandPaging.Bytes

/-!
Physical memory: a fixed number of frames and a list of the free ones.

A frame that is handed out is flagged as allocated and leaves the free list; giving it back does the
reverse and forgets its pin. The free list is used as a stack, so the frame that was given back last
is handed out next. Handing out a frame leaves its bytes in place.
-/

namespace DemandPaging

inductive FrameFlag where
  | allocated
  | pinned
deriving DecidableEq

/-- The state of a frame. A pinned frame is never chosen for eviction. -/
structure FrameFlags where
  allocated : Bool
  pinned : Bool
deriving DecidableEq

namespace FrameFlags

def clear : FrameFlags := ⟨false, false⟩

def test (flags : FrameFlags) : FrameFlag → Bool
  | .allocated => flags.allocated
  | .pinned => flags.pinned

def set (flags : FrameFlags) (flag : FrameFlag) (on : Bool) : FrameFlags :=
  match flag with
  | .allocated => { flags with allocated := on }
  | .pinned => { flags with pinned := on }

@[simp] theorem test_set (flags : FrameFlags) (flag other : FrameFlag) (on : Bool) :
    (flags.set flag on).test other = if flag = other then on else flags.test other := by
  cases flag <;> cases other <;> rfl

end FrameFlags

structure Frame where
  flags : FrameFlags
  bytes : PageBytes

structure Pool where
  frames : Array Frame
  freeList : List FrameNumber

namespace Pool

def ofCapacity (capacity : Nat) : Pool :=
  { frames := Array.replicate capacity ⟨.clear, Bytes.zeros pageSize⟩
    freeList := (List.range capacity).map Number.mk }

def create (capacity : Nat) : Except Panic Pool := do
  discard <| Word.mul capacity pageSize
  return ofCapacity capacity

def capacity (pool : Pool) : Nat := pool.frames.size

def freeCount (pool : Pool) : Nat := pool.freeList.length

def frame? (pool : Pool) (number : FrameNumber) : Option Frame := pool.frames[number.toNat]?

def frame (pool : Pool) (number : FrameNumber) : Except Panic Frame :=
  match pool.frame? number with
  | some frame => .ok frame
  | none => .error .outOfBounds

def modify (pool : Pool) (number : FrameNumber) (change : Frame → Frame) : Pool :=
  { pool with frames := pool.frames.modify number.toNat change }

def setFlag (pool : Pool) (number : FrameNumber) (flag : FrameFlag) (on : Bool) : Pool :=
  pool.modify number fun frame => { frame with flags := frame.flags.set flag on }

def allocate (pool : Pool) : Option (FrameNumber × Pool) :=
  match pool.freeList with
  | [] => none
  | number :: rest => some (number, { pool with freeList := rest }.setFlag number .allocated true)

def release (pool : Pool) (number : FrameNumber) : Except Panic Pool := do
  let frame ← pool.frame number
  unless frame.flags.allocated do throw .freeingUnallocatedFrame
  return { pool.modify number fun frame => { frame with flags := .clear } with
    freeList := number :: pool.freeList }

def setPinned (pool : Pool) (number : FrameNumber) (on : Bool) : Except Panic Pool := do
  discard <| pool.frame number
  return pool.setFlag number .pinned on

def bytes (pool : Pool) (number : FrameNumber) : Except Panic PageBytes := do
  discard number.start
  return (← pool.frame number).bytes

def setBytes (pool : Pool) (number : FrameNumber) (bytes : PageBytes) : Except Panic Pool := do
  discard number.start
  discard <| pool.frame number
  return pool.modify number fun frame => { frame with bytes }

def copy (pool : Pool) (source target : FrameNumber) : Except Panic Pool := do
  discard source.start
  discard target.start
  let bytes ← pool.bytes source
  pool.setBytes target bytes

def read (pool : Pool) (pa : PhysicalAddress) (length : Nat) : Except Panic (Array UInt8) := do
  let bytes ← pool.bytes pa.number
  if pa.pageOffset + length ≤ pageSize then return bytes.slice pa.pageOffset length
  throw .outOfBounds

def write (pool : Pool) (pa : PhysicalAddress) (data : Array UInt8) : Except Panic Pool := do
  let bytes ← pool.bytes pa.number
  if pa.pageOffset + data.size ≤ pageSize then
    return ← pool.setBytes pa.number (bytes.overlay pa.pageOffset data)
  throw .outOfBounds

@[simp] theorem capacity_modify (pool : Pool) (number : FrameNumber) (change : Frame → Frame) :
    (pool.modify number change).capacity = pool.capacity := by
  simp [modify, capacity]

@[simp] theorem freeList_modify (pool : Pool) (number : FrameNumber) (change : Frame → Frame) :
    (pool.modify number change).freeList = pool.freeList := rfl

theorem frame?_modify (pool : Pool) (number : FrameNumber) (change : Frame → Frame)
    (other : FrameNumber) :
    (pool.modify number change).frame? other =
      if number = other then (pool.frame? other).map change else pool.frame? other := by
  by_cases h : number = other
  · subst h
    simp [frame?, modify, Array.getElem?_modify]
  · have hindex : number.toNat ≠ other.toNat := fun he => h (Number.ext he)
    simp [frame?, modify, Array.getElem?_modify, hindex, h]

end Pool

end DemandPaging
