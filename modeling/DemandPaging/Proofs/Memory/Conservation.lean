import DemandPaging.Proofs.Memory.Pool
import DemandPaging.Machine.Components

/-!
The frame pool conserves its frames and keeps them apart.

Whatever is asked of a pool, the frames that were handed out and not taken back are those with the
allocated bit, and the free list names all others, once each. So a frame is never handed out twice,
none is lost, and one that is taken back is the next to be handed out, without its pin.

The bytes of all frames make up one stretch of memory, in the order of the frame numbers. Replacing,
copying and writing bytes is an update of that memory at the addresses that were asked for, which lie
in one frame.
-/

namespace DemandPaging

namespace Pool

inductive Call where
  | allocate
  | release (number : FrameNumber)
  | pin (number : FrameNumber) (on : Bool)
  | replace (number : FrameNumber) (bytes : PageBytes)
  | copy (source target : FrameNumber)
  | read (pa : PhysicalAddress) (length : Nat)
  | write (pa : PhysicalAddress) (data : Array UInt8)

inductive Answer where
  | handedOut (number : Option FrameNumber)
  | done
  | data (data : Array UInt8)
deriving DecidableEq

def perform (pool : Pool) : Call → Except Panic (Answer × Pool)
  | .allocate =>
      match pool.allocate with
      | none => .ok (.handedOut none, pool)
      | some (number, pool) => .ok (.handedOut (some number), pool)
  | .release number => do return (.done, ← pool.release number)
  | .pin number on => do return (.done, ← pool.setPinned number on)
  | .replace number bytes => do return (.done, ← pool.setBytes number bytes)
  | .copy source target => do return (.done, ← pool.copy source target)
  | .read pa length => do return (.data (← pool.read pa length), pool)
  | .write pa data => do return (.done, ← pool.write pa data)

/-- The frames that are in use after a call. -/
def use (used : List FrameNumber) : Call → Answer → List FrameNumber
  | .allocate, .handedOut (some number) => number :: used
  | .release number, _ => used.filter fun other => decide (other ≠ number)
  | _, _ => used

/-- The frames that were handed out and not taken back, after calls of which the latest comes
first. -/
def inUse : List (Call × Answer) → List FrameNumber
  | [] => []
  | (call, answer) :: earlier => use (inUse earlier) call answer

/-- A pool of a number of frames after some calls that did not panic. -/
inductive Served (total : Nat) : List (Call × Answer) → Pool → Prop where
  | start {pool : Pool} (hcreate : create total = .ok pool) : Served total [] pool
  | step {history : List (Call × Answer)} {pool pool' : Pool} {call : Call} {answer : Answer}
      (h : Served total history pool) (performed : pool.perform call = .ok (answer, pool')) :
      Served total ((call, answer) :: history) pool'

def memory (pool : Pool) (a : Nat) : Option UInt8 :=
  (pool.bytes? ⟨a / pageSize⟩).bind fun bytes => bytes[a % pageSize]?

namespace Call

def onMemory (memory : Nat → Option UInt8) (a : Nat) : Call → Option UInt8
  | replace number bytes => if a / pageSize = number.toNat then bytes[a % pageSize]? else memory a
  | copy source target =>
      if a / pageSize = target.toNat then memory (source.toNat * pageSize + a % pageSize)
      else memory a
  | write pa data =>
      if pa.toNat ≤ a ∧ a < pa.toNat + data.size then data[a - pa.toNat]? else memory a
  | _ => memory a

def onPins (pinned : FrameNumber → Bool) (f : FrameNumber) : Call → Bool
  | release number => if number = f then false else pinned f
  | pin number on => if number = f then on else pinned f
  | _ => pinned f

def stores : Call → Bool
  | replace _ _ => true
  | copy _ _ => true
  | write _ _ => true
  | _ => false

end Call

structure Conserves (total : Nat) (used : List FrameNumber) (pool : Pool) : Prop where
  capacity : pool.capacity = total
  nodup : pool.freeList.Nodup
  free : ∀ f, f ∈ pool.freeList ↔ f.toNat < total ∧ pool.allocation f = some false
  allocated : ∀ f, pool.allocation f = some true ↔ f ∈ used
  count : pool.freeCount + pool.allocatedCount = total
  /-- A frame that is handed out was not in use. -/
  fresh : ∀ f pool', pool.allocate = some (f, pool') → f.toNat < total ∧ f ∉ used
  exhausted : pool.allocate = none ↔ ∀ f : FrameNumber, f.toNat < total → f ∈ used
  /-- The frame that was taken back last is handed out next, without its pin. -/
  again : ∀ f pool', pool.release f = .ok pool' →
    ∃ pool'', pool'.allocate = some (f, pool'') ∧ pool''.isPinned f = false
  /-- Taking back a frame of the pool panics if it is not in use, and nothing has changed then. -/
  refused : ∀ f : FrameNumber, f.toNat < total → ∀ m : Machine, m.pool = pool →
    ((∃ panic m', Machine.releaseFrame f m = .error panic m') ↔ f ∉ used) ∧
      ∀ panic m', Machine.releaseFrame f m = .error panic m' →
        panic = .freeingUnallocatedFrame ∧ m' = m
  memory : ∀ call answer pool', pool.perform call = .ok (answer, pool') →
    ∀ a, pool'.memory a = call.onMemory pool.memory a
  pins : ∀ call answer pool', pool.perform call = .ok (answer, pool') →
    ∀ f, pool'.isPinned f = call.onPins pool.isPinned f
  /-- A call that stores bytes changes nothing else. -/
  stored : ∀ call answer pool', pool.perform call = .ok (answer, pool') → call.stores = true →
    pool'.freeList = pool.freeList ∧
      ∀ f, (pool'.frame? f).map (·.flags) = (pool.frame? f).map (·.flags)
  /-- What is written lies in one frame. -/
  within : ∀ pa data pool', pool.write pa data = .ok pool' →
    pa.number.toNat < total ∧ pa.pageOffset + data.size ≤ pageSize
  read : ∀ pa length data, pool.read pa length = .ok data →
    data.size = length ∧ ∀ i < length, data[i]? = pool.memory (pa.toNat + i)

variable {total : Nat} {used : List FrameNumber} {pool pool' : Pool} {f : FrameNumber}

/-! ### What a call does to one view of the pool -/

theorem allocate_eq_none : pool.allocate = none ↔ pool.freeList = [] := by
  unfold allocate
  cases pool.freeList <;> simp

theorem modify_of_allocate (h : pool.allocate = some (f, pool')) :
    pool.freeList = f :: pool'.freeList ∧
      pool' = { pool with freeList := pool'.freeList }.setFlag f .allocated true := by
  unfold allocate at h
  split at h
  · cases h
  next first rest hfree =>
  cases h
  exact ⟨hfree, rfl⟩

theorem perform_allocate {answer : Answer} (h : pool.perform .allocate = .ok (answer, pool')) :
    (answer = .handedOut none ∧ pool' = pool) ∨
      ∃ f, answer = .handedOut (some f) ∧ pool.allocate = some (f, pool') := by
  simp only [perform] at h
  cases hallocate : pool.allocate with
  | none =>
      rw [hallocate] at h
      cases h
      exact .inl ⟨rfl, rfl⟩
  | some found =>
      rw [hallocate] at h
      cases h
      exact .inr ⟨found.1, rfl, rfl⟩

/-- A call that stores bytes replaces those of one frame. -/
theorem setBytes_of_stores {call : Call} {answer : Answer} (hstores : call.stores = true)
    (h : pool.perform call = .ok (answer, pool')) :
    ∃ number bytes, pool.setBytes number bytes = .ok pool' := by
  cases call with
  | replace number bytes =>
      obtain ⟨_, hset, ⟨⟩⟩ := bind_eq_ok.1 h
      exact ⟨number, bytes, hset⟩
  | copy source target =>
      obtain ⟨_, hcopy, ⟨⟩⟩ := bind_eq_ok.1 h
      obtain ⟨bytes, -, hset⟩ := copy_eq_ok hcopy
      exact ⟨target, bytes, hset⟩
  | write pa data =>
      obtain ⟨_, hwrite, ⟨⟩⟩ := bind_eq_ok.1 h
      obtain ⟨bytes, -, -, hset⟩ := write_eq_ok hwrite
      exact ⟨pa.number, _, hset⟩
  | _ => cases hstores

theorem modify_of_release (h : pool.release f = .ok pool') :
    pool' = { pool.modify f (fun frame => { frame with flags := .clear }) with
      freeList := f :: pool.freeList } := by
  simp only [release, bind_eq_ok, frame_eq_ok, require_eq_ok, pure_eq_ok] at h
  obtain ⟨frame, hframe, hallocated, rfl⟩ := h
  rfl

theorem modify_of_setPinned {on : Bool} (h : pool.setPinned f on = .ok pool') :
    pool' = pool.setFlag f .pinned on := by
  simp only [setPinned, bind_eq_ok, discard_eq_ok, pure_eq_ok] at h
  obtain ⟨-, -, rfl⟩ := h
  rfl

theorem capacity_withBytes (pool : Pool) (number : FrameNumber) (bytes : PageBytes) :
    (pool.withBytes number bytes).capacity = pool.capacity := capacity_modify _ _ _

theorem isPinned_modify (pool : Pool) (number : FrameNumber) (change : Frame → Frame)
    (other : FrameNumber) :
    (pool.modify number change).isPinned other =
      if number = other then (pool.frame? other).any fun frame => (change frame).flags.pinned
      else pool.isPinned other := by
  rw [isPinned, frame?_modify]
  split
  · cases pool.frame? other <;> rfl
  · rfl

theorem isPinned_eq_flags (pool : Pool) (number : FrameNumber) :
    pool.isPinned number = ((pool.frame? number).map (·.flags)).any (·.pinned) := by
  rw [isPinned, Option.any_map]

/-- Replacing the bytes of a frame leaves the free list and the state of every frame. -/
theorem flags_setBytes {number : FrameNumber} {bytes : PageBytes}
    (h : pool.setBytes number bytes = .ok pool') :
    pool'.freeList = pool.freeList ∧
      ∀ other, (pool'.frame? other).map (·.flags) = (pool.frame? other).map (·.flags) := by
  obtain ⟨-, -, rfl⟩ := setBytes_eq_ok.1 h
  refine ⟨rfl, fun other => ?_⟩
  rw [frame?_withBytes]
  split
  · rw [Option.map_map]
    rfl
  · rfl

theorem isPinned_setBytes {number : FrameNumber} {bytes : PageBytes}
    (h : pool.setBytes number bytes = .ok pool') (other : FrameNumber) :
    pool'.isPinned other = pool.isPinned other := by
  rw [isPinned_eq_flags, isPinned_eq_flags, (flags_setBytes h).2]

/-- A frame has an allocated bit, whatever its value, if the pool has the frame. -/
theorem allocation_ne_none : pool.allocation f ≠ none ↔ f.toNat < pool.capacity := by
  rw [allocation_eq_getElem?, capacity]
  simp

/-! ### Memory -/

/-- The byte at an offset of a frame is that at the address with this quotient and rest. -/
theorem memory_eq {a : Nat} {bytes : PageBytes} (h : pool.bytes? f = some bytes)
    (ha : a / pageSize = f.toNat) : pool.memory a = bytes[a % pageSize]? := by
  have hnumber : (⟨a / pageSize⟩ : FrameNumber) = f := Number.ext ha
  rw [memory, hnumber, h, Option.bind_some]

theorem memory_congr (h : ∀ other, pool'.bytes? other = pool.bytes? other) (a : Nat) :
    pool'.memory a = pool.memory a := by
  rw [memory, memory, h]

theorem memory_setBytes {bytes : PageBytes} (h : pool.setBytes f bytes = .ok pool') (a : Nat) :
    pool'.memory a = if a / pageSize = f.toNat then bytes[a % pageSize]? else pool.memory a := by
  have hbytes := bytes?_setBytes h
  split
  · next ha =>
    refine memory_eq ?_ ha
    rw [hbytes, if_pos rfl]
  · next ha =>
    rw [memory, memory, hbytes, if_neg]
    rintro rfl
    exact ha rfl

/-- Laying data over the frame that contains an address changes the bytes from that address on. -/
theorem memory_write {pa : PhysicalAddress} {data : Array UInt8}
    (h : pool.write pa data = .ok pool') (a : Nat) :
    pool'.memory a =
      if pa.toNat ≤ a ∧ a < pa.toNat + data.size then data[a - pa.toNat]? else pool.memory a := by
  obtain ⟨bytes, hbytes, hfits, hset⟩ := write_eq_ok h
  have hpa : pa.number.toNat * pageSize + pa.pageOffset = pa.toNat := Nat.div_add_mod' _ _
  have ha : a / pageSize * pageSize + a % pageSize = a := Nat.div_add_mod' _ _
  have hrest : a % pageSize < pageSize := Nat.mod_lt _ pageSize_pos
  rw [memory_setBytes hset]
  by_cases hframe : a / pageSize = pa.number.toNat
  · rw [if_pos hframe, memory_eq hbytes hframe, Vector.getElem?_eq_getElem hrest,
      Vector.getElem?_eq_getElem hrest, Bytes.getElem_overlay]
    rw [hframe] at ha
    by_cases hstart : pa.pageOffset ≤ a % pageSize
    · have hindex : a - pa.toNat = a % pageSize - pa.pageOffset := by omega
      rw [if_pos hstart, hindex]
      by_cases hend : a % pageSize - pa.pageOffset < data.size
      · rw [if_pos (by omega), Array.getElem?_eq_getElem hend, Option.getD_some]
      · rw [if_neg (by omega), Array.getElem?_eq_none (Nat.not_lt.1 hend), Option.getD_none]
    · rw [if_neg hstart, if_neg (by omega)]
  · rw [if_neg hframe, if_neg]
    rintro ⟨hle, hlt⟩
    refine hframe (Nat.div_eq_of_lt_le ?_ ?_)
    · omega
    · rw [Nat.succ_mul]
      omega

theorem memory_copy {source target : FrameNumber} (h : pool.copy source target = .ok pool')
    (a : Nat) :
    pool'.memory a = if a / pageSize = target.toNat then
      pool.memory (source.toNat * pageSize + a % pageSize) else pool.memory a := by
  obtain ⟨bytes, hbytes, hset⟩ := copy_eq_ok h
  have hrest : a % pageSize < pageSize := Nat.mod_lt _ pageSize_pos
  have hsource : (source.toNat * pageSize + a % pageSize) / pageSize = source.toNat := by
    rw [Nat.mul_comm, Nat.mul_add_div pageSize_pos, Nat.div_eq_of_lt hrest, Nat.add_zero]
  rw [memory_setBytes hset, memory_eq hbytes hsource, Nat.mul_comm, Nat.mul_add_mod,
    Nat.mod_eq_of_lt hrest]

theorem memory_perform {call : Call} {answer : Answer}
    (h : pool.perform call = .ok (answer, pool')) (a : Nat) :
    pool'.memory a = call.onMemory pool.memory a := by
  cases call with
  | allocate =>
      obtain ⟨-, rfl⟩ | ⟨number, -, hallocate⟩ := perform_allocate h
      · rfl
      · exact memory_congr (bytes?_allocate hallocate) a
  | release number =>
      obtain ⟨_, hrelease, ⟨⟩⟩ := bind_eq_ok.1 h
      exact memory_congr (bytes?_release hrelease) a
  | pin number on =>
      obtain ⟨_, hpin, ⟨⟩⟩ := bind_eq_ok.1 h
      exact memory_congr (bytes?_setPinned hpin) a
  | replace number bytes =>
      obtain ⟨_, hset, ⟨⟩⟩ := bind_eq_ok.1 h
      exact memory_setBytes hset a
  | copy source target =>
      obtain ⟨_, hcopy, ⟨⟩⟩ := bind_eq_ok.1 h
      exact memory_copy hcopy a
  | read pa length =>
      obtain ⟨_, -, ⟨⟩⟩ := bind_eq_ok.1 h
      rfl
  | write pa data =>
      obtain ⟨_, hwrite, ⟨⟩⟩ := bind_eq_ok.1 h
      exact memory_write hwrite a

theorem getElem?_read {pa : PhysicalAddress} {length : Nat} {data : Array UInt8}
    (h : pool.read pa length = .ok data) :
    data.size = length ∧ ∀ i < length, data[i]? = pool.memory (pa.toNat + i) := by
  obtain ⟨bytes, hbytes, hfits, rfl⟩ := read_eq_ok h
  constructor
  · rw [Bytes.slice, Array.size_extract, Vector.size_toArray]
    omega
  · intro i hi
    have hpa : pa.toNat + i = pageSize * pa.number.toNat + (pa.pageOffset + i) := by
      have hsplit : pageSize * pa.number.toNat + pa.pageOffset = pa.toNat := Nat.div_add_mod _ _
      omega
    have hlt : pa.pageOffset + i < pageSize := by omega
    have hdiv : (pa.toNat + i) / pageSize = pa.number.toNat := by
      rw [hpa, Nat.mul_add_div pageSize_pos, Nat.div_eq_of_lt hlt, Nat.add_zero]
    rw [memory_eq hbytes hdiv, hpa, Nat.mul_add_mod, Nat.mod_eq_of_lt hlt,
      Bytes.getElem?_slice bytes hi hlt, Vector.getElem?_eq_getElem hlt]

/-! ### Pins -/

theorem isPinned_release (h : pool.release f = .ok pool') (other : FrameNumber) :
    pool'.isPinned other = if f = other then false else pool.isPinned other := by
  rw [modify_of_release h]
  change (pool.modify f _).isPinned other = _
  rw [isPinned_modify]
  simp [FrameFlags.clear]

/-- A frame is handed out with the pin that it has. -/
theorem isPinned_allocate (h : pool.allocate = some (f, pool')) (other : FrameNumber) :
    pool'.isPinned other = pool.isPinned other := by
  rw [(modify_of_allocate h).2, setFlag, isPinned_modify]
  split <;> rfl

theorem isPinned_perform {call : Call} {answer : Answer}
    (h : pool.perform call = .ok (answer, pool')) (f : FrameNumber) :
    pool'.isPinned f = call.onPins pool.isPinned f := by
  cases call with
  | allocate =>
      obtain ⟨-, rfl⟩ | ⟨number, -, hallocate⟩ := perform_allocate h
      · rfl
      · exact isPinned_allocate hallocate f
  | release number =>
      obtain ⟨_, hrelease, ⟨⟩⟩ := bind_eq_ok.1 h
      exact isPinned_release hrelease f
  | pin number on =>
      obtain ⟨_, hpin, ⟨⟩⟩ := bind_eq_ok.1 h
      exact isPinned_setPinned hpin f
  | read pa length =>
      obtain ⟨_, -, ⟨⟩⟩ := bind_eq_ok.1 h
      rfl
  | _ =>
      obtain ⟨number, bytes, hset⟩ := setBytes_of_stores rfl h
      exact isPinned_setBytes hset f

/-! ### Which frames are in use -/

structure Books (total : Nat) (used : List FrameNumber) (pool : Pool) : Prop where
  capacity : pool.capacity = total
  consistent : pool.Consistent
  allocated : ∀ f, pool.allocation f = some true ↔ f ∈ used

theorem books_create (h : create total = .ok pool) : Books total [] pool := by
  simp only [create, bind_eq_ok, discard_eq_ok, pure_eq_ok] at h
  obtain ⟨-, -, rfl⟩ := h
  refine ⟨by simp [capacity, ofCapacity], consistent_ofCapacity total, fun f => ?_⟩
  simp [allocation_eq_getElem?, ofCapacity, Array.getElem?_replicate, FrameFlags.clear]

namespace Books

theorem of_sameAllocation (h : Books total used pool) (hsame : SameAllocation pool pool')
    (hcapacity : pool'.capacity = pool.capacity) : Books total used pool' where
  capacity := hcapacity.trans h.capacity
  consistent := h.consistent.of_sameAllocation hsame
  allocated f := by rw [hsame.allocation, h.allocated]

theorem setBytes (h : Books total used pool) {bytes : PageBytes}
    (hset : pool.setBytes f bytes = .ok pool') : Books total used pool' := by
  refine h.of_sameAllocation (sameAllocation_setBytes hset) ?_
  obtain ⟨-, -, rfl⟩ := setBytes_eq_ok.1 hset
  exact capacity_withBytes _ _ _

theorem setPinned (h : Books total used pool) {on : Bool}
    (hpin : pool.setPinned f on = .ok pool') : Books total used pool' := by
  refine h.of_sameAllocation (sameAllocation_setPinned hpin) ?_
  rw [modify_of_setPinned hpin]
  exact capacity_modify _ _ _

theorem allocate (h : Books total used pool) (hallocate : pool.allocate = some (f, pool')) :
    Books total (f :: used) pool' := by
  obtain ⟨-, hconsistent, -, hallocation⟩ := allocate_eq_some h.consistent hallocate
  refine ⟨?_, hconsistent, fun other => ?_⟩
  · rw [(modify_of_allocate hallocate).2]
    exact (capacity_modify _ _ _).trans h.capacity
  · rw [hallocation, List.mem_cons, ← h.allocated, eq_comm (a := other)]
    split
    · next heq => simp [heq]
    · next hne => simp [hne]

theorem release (h : Books total used pool) (hrelease : pool.release f = .ok pool') :
    Books total (used.filter fun other => decide (other ≠ f)) pool' := by
  obtain ⟨-, hconsistent, -, hallocation⟩ := release_eq_ok h.consistent hrelease
  refine ⟨?_, hconsistent, fun other => ?_⟩
  · rw [modify_of_release hrelease]
    exact (capacity_modify pool f _).trans h.capacity
  · rw [hallocation, List.mem_filter, decide_eq_true_iff, ← h.allocated]
    split
    · next heq => simp [heq]
    · next hne => simp [Ne.symm hne]

theorem perform (h : Books total used pool) {call : Call} {answer : Answer}
    (hperform : pool.perform call = .ok (answer, pool')) :
    Books total (use used call answer) pool' := by
  cases call with
  | allocate =>
      obtain ⟨rfl, rfl⟩ | ⟨number, rfl, hallocate⟩ := perform_allocate hperform
      · exact h
      · exact h.allocate hallocate
  | release number =>
      obtain ⟨_, hrelease, ⟨⟩⟩ := bind_eq_ok.1 hperform
      exact h.release hrelease
  | pin number on =>
      obtain ⟨_, hpin, ⟨⟩⟩ := bind_eq_ok.1 hperform
      exact h.setPinned hpin
  | read pa length =>
      obtain ⟨_, -, ⟨⟩⟩ := bind_eq_ok.1 hperform
      exact h
  | _ =>
      obtain ⟨number, bytes, hset⟩ := setBytes_of_stores rfl hperform
      exact h.setBytes hset

theorem mem_freeList (h : Books total used pool) :
    f ∈ pool.freeList ↔ f.toNat < total ∧ f ∉ used := by
  rw [h.consistent.mem_freeList, ← h.allocated, ← h.capacity, ← allocation_ne_none]
  cases pool.allocation f with
  | none => simp
  | some on => cases on <;> simp

end Books

theorem Served.books {history : List (Call × Answer)} (h : Served total history pool) :
    Books total (inUse history) pool := by
  induction h with
  | start hcreate => exact books_create hcreate
  | step _ performed ih => exact ih.perform performed

/-! ### Taking back -/

theorem release_eq (hf : f.toNat < pool.capacity) :
    (pool.allocation f = some true ∧ ∃ pool', pool.release f = .ok pool') ∨
      (pool.allocation f = some false ∧
        pool.release f = .error .freeingUnallocatedFrame) := by
  have hframe : pool.frame? f = some pool.frames[f.toNat] := Array.getElem?_eq_getElem hf
  have hbit : pool.allocation f = some pool.frames[f.toNat].flags.allocated := by
    rw [allocation, hframe, Option.map_some]
  cases hallocated : pool.frames[f.toNat].flags.allocated with
  | true =>
      rw [hallocated] at hbit
      exact .inl ⟨hbit, exists_release hbit⟩
  | false =>
      rw [hallocated] at hbit
      refine .inr ⟨hbit, ?_⟩
      rw [release, frame_eq_ok.2 hframe]
      exact if_neg (Bool.eq_false_iff.1 hallocated)

/-- The free list is a stack, and a frame on it has no pin of its last use. -/
theorem allocate_of_release (h : pool.release f = .ok pool') :
    ∃ pool'', pool'.allocate = some (f, pool'') ∧ pool''.isPinned f = false := by
  have hpinned : pool'.isPinned f = false := by rw [isPinned_release h, if_pos rfl]
  rw [modify_of_release h] at hpinned ⊢
  refine ⟨_, rfl, ?_⟩
  rw [setFlag, isPinned_modify, if_pos rfl]
  exact hpinned

theorem releaseFrame_eq_error {m : Machine} (hf : f.toNat < m.pool.capacity) :
    ((∃ panic m', Machine.releaseFrame f m = .error panic m') ↔ m.pool.allocation f ≠ some true) ∧
      ∀ panic m', Machine.releaseFrame f m = .error panic m' →
        panic = .freeingUnallocatedFrame ∧ m' = m := by
  obtain ⟨hused, pool', hrelease⟩ | ⟨hfree, hrelease⟩ := release_eq hf
  · have hrun : Machine.releaseFrame f m =
        .ok () { m with pool := pool', events := m.events.push (.frameFreed f) } := by
      change (Machine.ofExcept (m.pool.release f) >>= _) m = _
      rw [hrelease]
      rfl
    simp [hrun, hused]
  · have hrun : Machine.releaseFrame f m = .error .freeingUnallocatedFrame m := by
      change (Machine.ofExcept (m.pool.release f) >>= _) m = _
      rw [hrelease]
      rfl
    simp [hrun, hfree, eq_comm]

/-! ### Conservation -/

theorem number_lt_of_write {pa : PhysicalAddress} {data : Array UInt8}
    (h : pool.write pa data = .ok pool') :
    pa.number.toNat < pool.capacity ∧ pa.pageOffset + data.size ≤ pageSize := by
  obtain ⟨bytes, hbytes, hfits, -⟩ := write_eq_ok h
  obtain ⟨frame, hframe, -⟩ := Option.map_eq_some_iff.1 hbytes
  refine ⟨allocation_ne_none.1 ?_, hfits⟩
  rw [allocation, hframe]
  exact Option.some_ne_none _

/-- A pool conserves its frames, whatever was asked of it. -/
theorem Served.conserves {history : List (Call × Answer)} (h : Served total history pool) :
    Conserves total (inUse history) pool := by
  obtain ⟨rfl, hconsistent, hallocated⟩ := h.books
  have hfree : ∀ f, f ∈ pool.freeList ↔ f.toNat < pool.capacity ∧ f ∉ inUse history :=
    fun _ => h.books.mem_freeList
  exact
    { capacity := rfl
      nodup := hconsistent.nodup
      free := fun f => by
        rw [hconsistent.mem_freeList, iff_and_self, ← allocation_ne_none]
        intro hf
        rw [hf]
        exact Option.some_ne_none _
      allocated := hallocated
      count := hconsistent.freeCount_add_allocatedCount
      fresh := fun f pool' hallocate => by
        rw [← hfree, (modify_of_allocate hallocate).1]
        exact List.mem_cons_self
      exhausted := by
        rw [allocate_eq_none, List.eq_nil_iff_forall_not_mem]
        simp only [hfree, not_and, not_not]
      again := fun _ _ => allocate_of_release
      refused := fun f hf m hm => by
        subst hm
        rw [← hallocated]
        exact releaseFrame_eq_error hf
      memory := fun _ _ _ => memory_perform
      pins := fun _ _ _ => isPinned_perform
      stored := fun call answer pool' hperform hstores => by
        obtain ⟨number, bytes, hset⟩ := setBytes_of_stores hstores hperform
        exact flags_setBytes hset
      within := fun _ _ _ => number_lt_of_write
      read := fun _ _ _ => getElem?_read }

/-- Of two frames that were handed out the first one is pinned and taken back. -/
theorem conserves_of_release : ∃ history pool, Served 2 history pool ∧ inUse history = [⟨1⟩] ∧
    pool.freeList = [⟨0⟩] ∧ Conserves 2 (inUse history) pool := by
  have htest : (do
      let pool ← create 2
      let (first, pool) ← pool.perform .allocate
      let (second, pool) ← pool.perform .allocate
      let (pinned, pool) ← pool.perform (.pin ⟨0⟩ true)
      let (released, pool) ← pool.perform (.release ⟨0⟩)
      return decide (first = .handedOut (some ⟨0⟩) ∧ second = .handedOut (some ⟨1⟩) ∧
        pinned = .done ∧ released = .done ∧ pool.freeList = [⟨0⟩]) : Except Panic Bool) =
      .ok true := by
    decide +kernel
  obtain ⟨pool, hcreate, htest⟩ := bind_eq_ok.1 htest
  obtain ⟨⟨first, pool₁⟩, hfirst, htest⟩ := bind_eq_ok.1 htest
  obtain ⟨⟨second, pool₂⟩, hsecond, htest⟩ := bind_eq_ok.1 htest
  obtain ⟨⟨pinned, pool₃⟩, hpinned, htest⟩ := bind_eq_ok.1 htest
  obtain ⟨⟨released, pool₄⟩, hreleased, htest⟩ := bind_eq_ok.1 htest
  simp only [pure_eq_ok, decide_eq_true_eq] at htest
  obtain ⟨rfl, rfl, rfl, rfl, hfree⟩ := htest
  have hserved := ((((Served.start hcreate).step hfirst).step hsecond).step hpinned).step hreleased
  exact ⟨_, pool₄, hserved, rfl, hfree, hserved.conserves⟩

end Pool

end DemandPaging
