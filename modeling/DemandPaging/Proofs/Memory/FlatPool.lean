import DemandPaging.Proofs.Memory.Conservation
import DemandPaging.Proofs.PageTable.Grant

/-!
The frame pool in one array of bytes.

The contents of all frames lie in one array, frame after frame, so the bytes of a frame are those from
its number times the page size on. The state of a frame is a word with a bit for each flag, and the
free list is an array of which the last frame is handed out next. Nothing in this form keeps two
frames apart but the arithmetic of addresses.

A pool of separate frames is laid out in this way by `Pool.flat`. Both answer every call alike and
panic alike, and what they become corresponds again. So whatever is asked of the one array, a call
that stores in a frame leaves the bytes of all others alone.
-/

namespace DemandPaging

def FrameFlag.bit : FrameFlag → Nat
  | allocated => 0
  | pinned => 1

/-- The state bits of a frame as one word. -/
structure FrameWord where
  bits : BitVec 64
deriving DecidableEq

namespace FrameWord

def test (word : FrameWord) (flag : FrameFlag) : Bool :=
  word.bits &&& BitVec.twoPow 64 flag.bit != 0

def set (word : FrameWord) (flag : FrameFlag) (on : Bool) : FrameWord :=
  if on then ⟨word.bits ||| BitVec.twoPow 64 flag.bit⟩
  else ⟨word.bits &&& ~~~BitVec.twoPow 64 flag.bit⟩

end FrameWord

namespace FrameFlags

def word (flags : FrameFlags) : FrameWord :=
  ((⟨0⟩ : FrameWord).set .allocated flags.allocated).set .pinned flags.pinned

@[simp] theorem test_word (flags : FrameFlags) (flag : FrameFlag) :
    flags.word.test flag = flags.test flag := by
  obtain ⟨allocated, pinned⟩ := flags
  cases flag <;> cases allocated <;> cases pinned <;> decide

theorem word_set (flags : FrameFlags) (flag : FrameFlag) (on : Bool) :
    (flags.set flag on).word = flags.word.set flag on := by
  obtain ⟨allocated, pinned⟩ := flags
  cases flag <;> cases on <;> cases allocated <;> cases pinned <;> decide

theorem word_clear (flags : FrameFlags) :
    clear.word = (flags.word.set .allocated false).set .pinned false := by
  rw [← word_set, ← word_set]
  rfl

end FrameFlags

/-- A frame pool with the bytes of all frames in one array. -/
structure FlatPool where
  memory : Array UInt8
  frames : Array FrameWord
  /-- The free frames; the last one is handed out next. -/
  free : Array FrameNumber

namespace FlatPool

def create (capacity : Nat) : Except Panic FlatPool := do
  let size ← Word.mul capacity pageSize
  return {
    memory := Array.replicate size 0
    frames := Array.replicate capacity ⟨0⟩
    free := ((List.range capacity).reverse.map Number.mk).toArray }

def frame (pool : FlatPool) (number : FrameNumber) : Except Panic FrameWord :=
  match pool.frames[number.toNat]? with
  | some word => .ok word
  | none => .error .outOfBounds

def update (pool : FlatPool) (number : FrameNumber) (change : FrameWord → FrameWord) :
    Except Panic FlatPool := do
  discard <| pool.frame number
  return { pool with frames := pool.frames.modify number.toNat change }

/-- Where the bytes of a frame begin, if all of them are there. -/
def offset (pool : FlatPool) (number : FrameNumber) : Except Panic Nat := do
  let start ← number.start
  if start.toNat + pageSize ≤ pool.memory.size then return start.toNat
  throw .outOfBounds

def overwrite (pool : FlatPool) (offset : Nat) (data : Array UInt8) : FlatPool :=
  { pool with memory := (Bytes.overlay pool.memory.toVector offset data).toArray }

def allocate (pool : FlatPool) : Except Panic (Option FrameNumber × FlatPool) :=
  match pool.free.back? with
  | none => return (none, pool)
  | some number => do
      let pool ← { pool with free := pool.free.pop }.update number (·.set .allocated true)
      return (some number, pool)

def release (pool : FlatPool) (number : FrameNumber) : Except Panic FlatPool := do
  let word ← pool.frame number
  unless word.test .allocated do throw .freeingUnallocatedFrame
  let pool ← pool.update number fun word => (word.set .allocated false).set .pinned false
  return { pool with free := pool.free.push number }

def setPinned (pool : FlatPool) (number : FrameNumber) (on : Bool) : Except Panic FlatPool :=
  pool.update number (·.set .pinned on)

def bytes (pool : FlatPool) (number : FrameNumber) : Except Panic (Array UInt8) := do
  let offset ← pool.offset number
  return pool.memory.extract offset (offset + pageSize)

def setBytes (pool : FlatPool) (number : FrameNumber) (bytes : PageBytes) :
    Except Panic FlatPool := do
  return pool.overwrite (← pool.offset number) bytes.toArray

def copy (pool : FlatPool) (source target : FrameNumber) : Except Panic FlatPool := do
  discard source.start
  discard target.start
  let bytes ← pool.bytes source
  return pool.overwrite (← pool.offset target) bytes

def read (pool : FlatPool) (pa : PhysicalAddress) (length : Nat) : Except Panic (Array UInt8) := do
  let bytes ← pool.bytes pa.number
  if pa.pageOffset + length ≤ bytes.size then
    return bytes.extract pa.pageOffset (pa.pageOffset + length)
  throw .outOfBounds

def write (pool : FlatPool) (pa : PhysicalAddress) (data : Array UInt8) :
    Except Panic FlatPool := do
  let offset ← pool.offset pa.number
  if pa.pageOffset + data.size ≤ pageSize then
    return pool.overwrite (offset + pa.pageOffset) data
  throw .outOfBounds

open Pool (Call Answer)

def perform (pool : FlatPool) : Call → Except Panic (Answer × FlatPool)
  | .allocate => do
      let (number, pool) ← pool.allocate
      return (.handedOut number, pool)
  | .release number => do return (.done, ← pool.release number)
  | .pin number on => do return (.done, ← pool.setPinned number on)
  | .replace number bytes => do return (.done, ← pool.setBytes number bytes)
  | .copy source target => do return (.done, ← pool.copy source target)
  | .read pa length => do return (.data (← pool.read pa length), pool)
  | .write pa data => do return (.done, ← pool.write pa data)

inductive Served (total : Nat) : List (Call × Answer) → FlatPool → Prop where
  | start {pool : FlatPool} (hcreate : create total = .ok pool) : Served total [] pool
  | step {history : List (Call × Answer)} {pool pool' : FlatPool} {call : Call} {answer : Answer}
      (h : Served total history pool) (performed : pool.perform call = .ok (answer, pool')) :
      Served total ((call, answer) :: history) pool'

end FlatPool

namespace Pool

/-- The pool laid out in one array. -/
def flat (pool : Pool) : FlatPool where
  memory := Array.ofFn fun a : Fin (pool.capacity * pageSize) => (pool.memory a.val).getD 0
  frames := pool.frames.map (·.flags.word)
  free := pool.freeList.reverse.toArray

variable {total : Nat} {pool pool' : Pool} {f : FrameNumber}

/-! ### The bytes of a frame in the array -/

@[simp] theorem size_memory_flat (pool : Pool) :
    pool.flat.memory.size = pool.capacity * pageSize := Array.size_ofFn

theorem isSome_memory_iff (pool : Pool) (a : Nat) :
    (pool.memory a).isSome ↔ a < pool.capacity * pageSize := by
  have hrest : a % pageSize < pageSize := Nat.mod_lt _ pageSize_pos
  rw [memory, ← Nat.div_lt_iff_lt_mul pageSize_pos, bytes?, frame?, capacity]
  by_cases h : a / pageSize < pool.frames.size
  · simp [h, hrest]
  · simp [h]

theorem getElem?_memory_flat (pool : Pool) (a : Nat) : pool.flat.memory[a]? = pool.memory a := by
  have hsome := pool.isSome_memory_iff a
  rw [flat, Array.getElem?_ofFn]
  split
  · next h =>
    obtain ⟨byte, hbyte⟩ := Option.isSome_iff_exists.1 (hsome.2 h)
    rw [hbyte, Option.getD_some]
  · next h => exact (Option.not_isSome_iff_eq_none.1 (mt hsome.1 h)).symm

/-- A layout is that of a pool if it has its memory, its state bits and its free list. -/
theorem eq_flat {flat : FlatPool} (hmemory : ∀ a, flat.memory[a]? = pool.memory a)
    (hframes : flat.frames = pool.frames.map (·.flags.word))
    (hfree : flat.free = pool.freeList.reverse.toArray) : flat = pool.flat := by
  have hsame : flat.memory = pool.flat.memory :=
    Array.ext_getElem? fun a => (hmemory a).trans (pool.getElem?_memory_flat a).symm
  cases flat
  cases hsame
  cases hframes
  cases hfree
  rfl

theorem lt_capacity_of_frame? {frame : Frame} (h : pool.frame? f = some frame) :
    f.toNat < pool.capacity := (Array.getElem?_eq_some_iff.1 h).1

theorem add_pageSize_le_iff (pool : Pool) (n : Nat) :
    n * pageSize + pageSize ≤ pool.capacity * pageSize ↔ n < pool.capacity := by
  rw [← Nat.succ_mul, Nat.mul_le_mul_right_iff pageSize_pos, Nat.succ_le_iff]

/-- An address lies in a frame if it comes after its start and before its end. -/
theorem div_pageSize_eq_iff {a n : Nat} :
    a / pageSize = n ↔ n * pageSize ≤ a ∧ a < n * pageSize + pageSize := by
  simp only [pageSize]
  omega

theorem mod_pageSize_eq {a n : Nat} (h : a / pageSize = n) : a % pageSize = a - n * pageSize := by
  rw [← h, ← Nat.mod_eq_sub_div_mul]

theorem frame_cases (pool : Pool) (number : FrameNumber) :
    pool.frame number = .error .outOfBounds ∧ ¬number.toNat < pool.capacity ∨
      ∃ frame, pool.frame? number = some frame ∧ pool.frame number = .ok frame ∧
        number.toNat < pool.capacity := by
  cases hframe : pool.frame? number with
  | none => exact .inl ⟨by rw [frame, hframe], by simpa [frame?, capacity] using hframe⟩
  | some found => exact .inr ⟨found, rfl, frame_eq_ok.2 hframe, lt_capacity_of_frame? hframe⟩

/-- The array has the bytes of a frame where its number says, and panics as the pool does. -/
theorem offset_flat (pool : Pool) (number : FrameNumber) :
    pool.flat.offset number = (pool.bytes number).map fun _ => number.toNat * pageSize := by
  rw [FlatPool.offset, Pool.bytes]
  cases hstart : number.start with
  | error panic => rfl
  | ok start =>
      have hsize : start.toNat + pageSize ≤ pool.flat.memory.size ↔
          number.toNat < pool.capacity := by
        rw [size_memory_flat, Number.start_eq_ok hstart, add_pageSize_le_iff]
      change (if _ then Except.ok start.toNat else .error Panic.outOfBounds) = _
      obtain ⟨hframe, hge⟩ | ⟨frame, -, hframe, hlt⟩ := pool.frame_cases number
      · rw [if_neg (mt hsize.1 hge), hframe]
        rfl
      · rw [if_pos (hsize.2 hlt), hframe, Number.start_eq_ok hstart]
        rfl

theorem extract_flat {bytes : PageBytes} (h : pool.bytes? f = some bytes) :
    pool.flat.memory.extract (f.toNat * pageSize) (f.toNat * pageSize + pageSize) =
      bytes.toArray := by
  obtain ⟨frame, hframe, -⟩ := Option.map_eq_some_iff.1 h
  have hfits := (pool.add_pageSize_le_iff f.toNat).2 (lt_capacity_of_frame? hframe)
  rw [← size_memory_flat] at hfits
  apply Array.ext_getElem?
  intro i
  by_cases hi : i < pageSize
  · have hdiv : (f.toNat * pageSize + i) / pageSize = f.toNat := div_pageSize_eq_iff.2 (by omega)
    rw [Array.getElem?_extract, if_pos (by omega), getElem?_memory_flat, memory_eq h hdiv,
      mod_pageSize_eq hdiv, Nat.add_sub_cancel_left, Vector.getElem?_toArray]
  · rw [Array.getElem?_eq_none (by rw [Array.size_extract]; omega),
      Array.getElem?_eq_none (by rw [Vector.size_toArray]; omega)]

theorem bytes_flat (pool : Pool) (number : FrameNumber) :
    pool.flat.bytes number = (pool.bytes number).map (·.toArray) := by
  rw [FlatPool.bytes, offset_flat]
  cases hbytes : pool.bytes number with
  | error panic => rfl
  | ok bytes => exact congrArg Except.ok (extract_flat (bytes_eq_ok hbytes))

/-! ### State bits -/

theorem frame_flat (pool : Pool) (number : FrameNumber) :
    pool.flat.frame number = (pool.frame number).map (·.flags.word) := by
  rw [FlatPool.frame, frame, frame?, flat, Array.getElem?_map]
  cases pool.frames[number.toNat]? <;> rfl

theorem update_flat (pool : Pool) (number : FrameNumber) {change : Frame → Frame}
    {onWord : FrameWord → FrameWord} (hbytes : ∀ frame, (change frame).bytes = frame.bytes)
    (hword : ∀ frame, (change frame).flags.word = onWord frame.flags.word) :
    pool.flat.update number onWord =
      (pool.frame number).map fun _ => (pool.modify number change).flat := by
  have hflat : { pool.flat with frames := pool.flat.frames.modify number.toNat onWord } =
      (pool.modify number change).flat := by
    refine eq_flat (fun a => ?_) ?_ rfl
    · rw [getElem?_memory_flat]
      refine (memory_congr (fun other => ?_) a).symm
      rw [bytes?_modify, bytes?]
      split
      · simp only [hbytes]
      · rfl
    · apply Array.ext_getElem?
      intro i
      simp only [flat, modify, Array.getElem?_modify, Array.getElem?_map]
      split <;> simp [Function.comp_def, hword]
  rw [FlatPool.update, frame_flat, hflat]
  cases pool.frame number <;> rfl

theorem setFlag_flat (pool : Pool) (number : FrameNumber) (flag : FrameFlag) (on : Bool) :
    pool.flat.update number (·.set flag on) =
      (pool.frame number).map fun _ => (pool.setFlag number flag on).flat :=
  pool.update_flat number (fun _ => rfl) fun frame => frame.flags.word_set flag on

theorem setPinned_flat (pool : Pool) (number : FrameNumber) (on : Bool) :
    pool.flat.setPinned number on = (pool.setPinned number on).map flat := by
  rw [FlatPool.setPinned, setPinned, setFlag_flat]
  cases pool.frame number <;> rfl

theorem release_flat (pool : Pool) (number : FrameNumber) :
    pool.flat.release number = (pool.release number).map flat := by
  have hupdate : (pool.flat.update number fun word =>
      (word.set .allocated false).set .pinned false) = (pool.frame number).map fun _ =>
        (pool.modify number fun frame => { frame with flags := .clear }).flat :=
    pool.update_flat number (fun _ => rfl) fun frame => frame.flags.word_clear
  rw [FlatPool.release, release, hupdate, frame_flat]
  cases pool.frame number with
  | error panic => rfl
  | ok frame =>
      have htest : frame.flags.word.test .allocated = frame.flags.allocated :=
        frame.flags.test_word .allocated
      simp only [Except.map, bind, Except.bind, pure, Except.pure, htest]
      by_cases hallocated : frame.flags.allocated = true
      · rw [if_pos hallocated, if_pos hallocated]
        refine congrArg Except.ok (eq_flat (getElem?_memory_flat _) rfl ?_)
        simp [flat]
      · rw [if_neg hallocated, if_neg hallocated]
        rfl

/-- Only frames of the pool may be free, or the array panics where the pool does not. -/
theorem allocate_flat (h : ∀ number ∈ pool.freeList, number.toNat < pool.capacity) :
    pool.flat.allocate = .ok (match pool.allocate with
      | none => (none, pool.flat)
      | some (number, pool') => (some number, pool'.flat)) := by
  unfold allocate FlatPool.allocate
  cases hfree : pool.freeList with
  | nil =>
      have hback : pool.flat.free.back? = none := by simp [flat, hfree]
      rw [hback]
      rfl
  | cons number rest =>
      have hback : pool.flat.free.back? = some number := by simp [flat, hfree]
      have hpop : { pool.flat with free := pool.flat.free.pop } =
          ({ pool with freeList := rest } : Pool).flat :=
        eq_flat (fun a => pool.getElem?_memory_flat a) rfl (by simp [flat, hfree])
      have hlt : number.toNat < pool.capacity := h number (hfree ▸ List.mem_cons_self)
      obtain ⟨-, hge⟩ | ⟨frame, -, hframe, -⟩ :=
        ({ pool with freeList := rest } : Pool).frame_cases number
      · exact absurd hlt hge
      · rw [hback]
        change (FlatPool.update _ number _ >>= _) = _
        rw [hpop, setFlag_flat, hframe]
        rfl

/-! ### Bytes -/

theorem getElem?_overwrite {flat : FlatPool} {offset : Nat} {data : Array UInt8}
    (hfits : offset + data.size ≤ flat.memory.size) (a : Nat) :
    (flat.overwrite offset data).memory[a]? =
      if offset ≤ a ∧ a < offset + data.size then data[a - offset]? else flat.memory[a]? := by
  by_cases ha : a < flat.memory.size
  · have hget : (flat.overwrite offset data).memory[a]? = some
        (if offset ≤ a then data[a - offset]?.getD flat.memory[a] else flat.memory[a]) := by
      rw [FlatPool.overwrite, Vector.getElem?_toArray, Vector.getElem?_eq_getElem ha,
        Bytes.getElem_overlay]
      rfl
    rw [hget, Array.getElem?_eq_getElem ha]
    by_cases hstart : offset ≤ a
    · by_cases hend : a < offset + data.size
      · rw [if_pos hstart, if_pos ⟨hstart, hend⟩, Array.getElem?_eq_getElem (by omega),
          Option.getD_some]
      · rw [if_pos hstart, if_neg (fun hin => hend hin.2), Array.getElem?_eq_none (by omega),
          Option.getD_none]
    · rw [if_neg hstart, if_neg (fun hin => hstart hin.1)]
  · rw [if_neg (by omega), Array.getElem?_eq_none (by simpa [FlatPool.overwrite] using ha),
      Array.getElem?_eq_none (Nat.not_lt.1 ha)]

/-- Overwriting the array is replacing the bytes of a frame if the memory becomes the same. -/
theorem overwrite_flat {bytes : PageBytes} {offset : Nat} {data : Array UInt8}
    (hset : pool.setBytes f bytes = .ok pool')
    (hfits : offset + data.size ≤ pool.capacity * pageSize)
    (hmemory : ∀ a, pool'.memory a =
      if offset ≤ a ∧ a < offset + data.size then data[a - offset]? else pool.memory a) :
    pool.flat.overwrite offset data = pool'.flat := by
  obtain ⟨hfree, hflags⟩ := flags_setBytes hset
  refine eq_flat (fun a => ?_) ?_ ?_
  · rw [getElem?_overwrite (by rwa [size_memory_flat]), getElem?_memory_flat, hmemory]
  · apply Array.ext_getElem?
    intro i
    have hword := congrArg (Option.map FrameFlags.word) (hflags ⟨i⟩)
    simpa [FlatPool.overwrite, flat, frame?, Function.comp_def] using hword.symm
  · rw [hfree]
    rfl

theorem bytes_congr (h : pool'.bytes? f = pool.bytes? f) : pool'.bytes f = pool.bytes f := by
  have hbytes : ∀ pool : Pool, pool.bytes f = (do
      discard f.start
      match pool.bytes? f with
        | some bytes => .ok bytes
        | none => .error .outOfBounds) := by
    intro pool
    rw [Pool.bytes, frame, bytes?]
    cases pool.frame? f <;> rfl
  rw [hbytes, hbytes, h]

theorem setBytes_eq_map (pool : Pool) (number : FrameNumber) (bytes : PageBytes) :
    pool.setBytes number bytes = (pool.bytes number).map fun _ => pool.withBytes number bytes := by
  rw [setBytes, Pool.bytes]
  cases number.start with
  | error panic => rfl
  | ok start => cases pool.frame number <;> rfl

theorem lt_capacity_of_bytes {bytes : PageBytes} (h : pool.bytes f = .ok bytes) :
    f.toNat < pool.capacity := by
  obtain ⟨frame, hframe, -⟩ := Option.map_eq_some_iff.1 (bytes_eq_ok h)
  exact lt_capacity_of_frame? hframe

theorem overwrite_frame {bytes : PageBytes} (hset : pool.setBytes f bytes = .ok pool') :
    pool.flat.overwrite (f.toNat * pageSize) bytes.toArray = pool'.flat := by
  refine overwrite_flat hset ?_ fun a => ?_
  · obtain ⟨frame, hframe⟩ := Option.ne_none_iff_exists'.1 (setBytes_eq_ok.1 hset).2.1
    rw [Vector.size_toArray]
    exact (pool.add_pageSize_le_iff _).2 (lt_capacity_of_frame? hframe)
  · rw [memory_setBytes hset, Vector.size_toArray]
    by_cases ha : a / pageSize = f.toNat
    · rw [if_pos ha, if_pos (div_pageSize_eq_iff.1 ha), mod_pageSize_eq ha, Vector.getElem?_toArray]
    · rw [if_neg ha, if_neg (mt div_pageSize_eq_iff.2 ha)]

theorem setBytes_flat (pool : Pool) (number : FrameNumber) (bytes : PageBytes) :
    pool.flat.setBytes number bytes = (pool.setBytes number bytes).map flat := by
  have hset := pool.setBytes_eq_map number bytes
  rw [FlatPool.setBytes, offset_flat]
  cases hbytes : pool.bytes number with
  | error panic =>
      rw [hset, hbytes]
      rfl
  | ok old =>
      rw [hbytes] at hset
      rw [hset]
      exact congrArg Except.ok (overwrite_frame hset)

theorem copy_flat (pool : Pool) (source target : FrameNumber) :
    pool.flat.copy source target = (pool.copy source target).map flat := by
  rw [FlatPool.copy, copy, bytes_flat]
  cases source.start with
  | error panic => rfl
  | ok _ =>
  cases target.start with
  | error panic => rfl
  | ok _ =>
  cases pool.bytes source with
  | error panic => rfl
  | ok bytes => exact pool.setBytes_flat target bytes

theorem read_flat (pool : Pool) (pa : PhysicalAddress) (length : Nat) :
    pool.flat.read pa length = pool.read pa length := by
  rw [FlatPool.read, read, bytes_flat]
  cases pool.bytes pa.number with
  | error panic => rfl
  | ok bytes =>
      simp only [Except.map, bind, Except.bind, Vector.size_toArray]
      rfl

theorem write_flat (pool : Pool) (pa : PhysicalAddress) (data : Array UInt8) :
    pool.flat.write pa data = (pool.write pa data).map flat := by
  rw [FlatPool.write, write, offset_flat]
  cases hbytes : pool.bytes pa.number with
  | error panic => rfl
  | ok bytes =>
  have hpa : pa.number.toNat * pageSize + pa.pageOffset = pa.toNat := Nat.div_add_mod' _ _
  simp only [Except.map, bind, Except.bind, hpa]
  by_cases hfits : pa.pageOffset + data.size ≤ pageSize
  · have hset := pool.setBytes_eq_map pa.number (bytes.overlay pa.pageOffset data)
    rw [hbytes] at hset
    have hwrite : pool.write pa data =
        .ok (pool.withBytes pa.number (bytes.overlay pa.pageOffset data)) := by
      rw [write, hbytes]
      simp only [bind, Except.bind, if_pos hfits, hset]
      rfl
    rw [if_pos hfits, if_pos hfits, hset]
    refine congrArg Except.ok (overwrite_flat hset ?_ (memory_write hwrite))
    have hframe := (pool.add_pageSize_le_iff _).2 (lt_capacity_of_bytes hbytes)
    omega
  · rw [if_neg hfits, if_neg hfits]
    rfl

/-! ### Every call -/

theorem create_flat (capacity : Nat) : FlatPool.create capacity = (create capacity).map flat := by
  rw [FlatPool.create, create]
  cases hsize : Word.mul capacity pageSize with
  | error panic => rfl
  | ok size =>
      obtain ⟨-, rfl⟩ := Word.mul_eq_ok.1 hsize
      refine congrArg Except.ok (eq_flat (fun a => ?_) ?_ ?_)
      · have hrest : a % pageSize < pageSize := Nat.mod_lt _ pageSize_pos
        simp only [memory, bytes?, frame?, ofCapacity, Array.getElem?_replicate,
          Nat.div_lt_iff_lt_mul pageSize_pos]
        split
        · simp [hrest]
        · rfl
      · simp only [ofCapacity, Array.map_replicate]
        rfl
      · simp [ofCapacity]

/-- The one array answers and panics as the pool that is laid out in it. -/
theorem perform_flat (h : ∀ number ∈ pool.freeList, number.toNat < pool.capacity) (call : Call) :
    pool.flat.perform call = (pool.perform call).map (Prod.map id flat) := by
  cases call with
  | allocate =>
      rw [FlatPool.perform, allocate_flat h, perform]
      cases pool.allocate <;> rfl
  | release number =>
      rw [FlatPool.perform, release_flat, perform]
      cases pool.release number <;> rfl
  | pin number on =>
      rw [FlatPool.perform, setPinned_flat, perform]
      cases pool.setPinned number on <;> rfl
  | replace number bytes =>
      rw [FlatPool.perform, setBytes_flat, perform]
      cases pool.setBytes number bytes <;> rfl
  | copy source target =>
      rw [FlatPool.perform, copy_flat, perform]
      cases pool.copy source target <;> rfl
  | read pa length =>
      rw [FlatPool.perform, read_flat, perform]
      cases pool.read pa length <;> rfl
  | write pa data =>
      rw [FlatPool.perform, write_flat, perform]
      cases pool.write pa data <;> rfl

theorem Served.perform_flat {history : List (Call × Answer)} (h : Served total history pool)
    (call : Call) : pool.flat.perform call = (pool.perform call).map (Prod.map id flat) := by
  refine Pool.perform_flat (fun number hnumber => ?_) call
  rw [h.books.capacity]
  exact (h.books.mem_freeList.1 hnumber).1

def Call.target? : Call → Option FrameNumber
  | replace number _ => some number
  | copy _ target => some target
  | write pa _ => some pa.number
  | _ => none

theorem bytes?_perform {call : Call} {answer : Answer}
    (h : pool.perform call = .ok (answer, pool')) (hf : call.target? ≠ some f) :
    pool'.bytes? f = pool.bytes? f := by
  cases call with
  | allocate =>
      obtain ⟨-, rfl⟩ | ⟨number, -, hallocate⟩ := perform_allocate h
      · rfl
      · exact bytes?_allocate hallocate f
  | release number =>
      obtain ⟨_, hrelease, ⟨⟩⟩ := bind_eq_ok.1 h
      exact bytes?_release hrelease f
  | pin number on =>
      obtain ⟨_, hpin, ⟨⟩⟩ := bind_eq_ok.1 h
      exact bytes?_setPinned hpin f
  | replace number bytes =>
      obtain ⟨_, hset, ⟨⟩⟩ := bind_eq_ok.1 h
      rw [bytes?_setBytes hset, if_neg fun heq => hf (congrArg some heq)]
  | copy source target =>
      obtain ⟨_, hcopy, ⟨⟩⟩ := bind_eq_ok.1 h
      obtain ⟨bytes, -, hset⟩ := copy_eq_ok hcopy
      rw [bytes?_setBytes hset, if_neg fun heq => hf (congrArg some heq)]
  | read pa length =>
      obtain ⟨_, -, ⟨⟩⟩ := bind_eq_ok.1 h
      rfl
  | write pa data =>
      obtain ⟨_, hwrite, ⟨⟩⟩ := bind_eq_ok.1 h
      obtain ⟨bytes, -, -, hset⟩ := write_eq_ok hwrite
      rw [bytes?_setBytes hset, if_neg fun heq => hf (congrArg some heq)]

end Pool

namespace FlatPool

open Pool (Call Answer)

variable {total : Nat} {history : List (Call × Answer)} {pool pool' : FlatPool} {call : Call}
  {answer : Answer}

/-- A pool in one array comes to what a pool of separate frames comes to, laid out. -/
theorem served_iff :
    Served total history pool ↔
      ∃ frames, Pool.Served total history frames ∧ pool = frames.flat := by
  constructor
  · intro h
    induction h with
    | start hcreate =>
        rw [Pool.create_flat, map_eq_ok] at hcreate
        obtain ⟨frames, hframes, rfl⟩ := hcreate
        exact ⟨frames, .start hframes, rfl⟩
    | step _ performed ih =>
        obtain ⟨frames, hserved, rfl⟩ := ih
        rw [hserved.perform_flat, map_eq_ok] at performed
        obtain ⟨⟨_, frames'⟩, hperform, ⟨⟩⟩ := performed
        exact ⟨frames', hserved.step hperform, rfl⟩
  · rintro ⟨frames, h, rfl⟩
    induction h with
    | start hcreate => exact .start (by rw [Pool.create_flat, hcreate]; rfl)
    | step h performed ih => exact ih.step (by rw [h.perform_flat, performed]; rfl)

namespace Served

theorem exists_step (h : Served total history pool)
    (performed : pool.perform call = .ok (answer, pool')) :
    ∃ frames frames' : Pool, Pool.Served total history frames ∧
      frames.perform call = .ok (answer, frames') ∧ pool = frames.flat ∧ pool' = frames'.flat := by
  obtain ⟨frames, hserved, rfl⟩ := served_iff.1 h
  rw [hserved.perform_flat, map_eq_ok] at performed
  obtain ⟨⟨_, frames'⟩, hperform, ⟨⟩⟩ := performed
  exact ⟨frames, frames', hserved, hperform, rfl, rfl⟩

/-- Whatever was asked before, a call changes the array at the addresses where it stores. -/
theorem getElem?_memory (h : Served total history pool)
    (performed : pool.perform call = .ok (answer, pool')) (a : Nat) :
    pool'.memory[a]? = call.onMemory (pool.memory[·]?) a := by
  obtain ⟨frames, frames', hserved, hperform, rfl, rfl⟩ := h.exists_step performed
  simp only [Pool.getElem?_memory_flat]
  exact Pool.memory_perform hperform a

/-- The frames are kept apart: a call leaves the bytes of each frame in which it does not store. -/
theorem apart (h : Served total history pool)
    (performed : pool.perform call = .ok (answer, pool')) {f : FrameNumber}
    (hf : call.target? ≠ some f) : pool'.bytes f = pool.bytes f := by
  obtain ⟨frames, frames', hserved, hperform, rfl, rfl⟩ := h.exists_step performed
  have hbytes := Pool.bytes?_perform hperform hf
  rw [Pool.bytes_flat, Pool.bytes_flat, Pool.bytes_congr hbytes]

end Served

end FlatPool

end DemandPaging
